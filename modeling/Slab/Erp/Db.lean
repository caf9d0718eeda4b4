import Slab.Txn.Prog
import Slab.Txn.Table
import Slab.Txn.Arith

/-!
# The ERP database

The tables that the modelled handlers read and write, with the columns they use, the
errors the handlers return, and the questions they put to the world outside the database.

## Main definitions

- `Db` — the tables
- `Key` — the rows that statements lock
- `AppError` — errors, with their messages
- `Ask`, `Answer` — fresh identifiers, sequences and clocks
- `Handler` — transaction programs over all of these
- `Db.stock` — the quantity of an item in a warehouse, 0 without a row
-/

namespace Slab

open Txn

abbrev ID := ℤ
abbrev Date := ℤ
abbrev Timestamp := ℤ

/-! ## Statuses and types, as they are stored -/

inductive SalesOrderStatus where
  | draft | submitted | pendingSupervisor | approved
deriving DecidableEq

def SalesOrderStatus.toI16 : SalesOrderStatus → ℤ
  | draft => 0 | submitted => 1 | pendingSupervisor => 2 | approved => 3

inductive SalesDeliveryStatus where
  | posted
deriving DecidableEq

def SalesDeliveryStatus.toI16 : SalesDeliveryStatus → ℤ
  | posted => 1

inductive PurchaseOrderStatus where
  | draft | submitted | pendingSupervisor | approved | rejected | deleted
deriving DecidableEq

def PurchaseOrderStatus.toI16 : PurchaseOrderStatus → ℤ
  | draft => 0 | submitted => 1 | pendingSupervisor => 2 | approved => 3 | rejected => 4
  | deleted => -1

inductive PurchaseReceiptStatus where
  | posted
deriving DecidableEq

def PurchaseReceiptStatus.toI16 : PurchaseReceiptStatus → ℤ
  | posted => 1

inductive PurchaseReturnStatus where
  | draft | submitted | approved
deriving DecidableEq

def PurchaseReturnStatus.toI16 : PurchaseReturnStatus → ℤ
  | draft => 0 | submitted => 1 | approved => 3

inductive StockTransferStatus where
  | draft | submitted | approved
deriving DecidableEq

def StockTransferStatus.toI16 : StockTransferStatus → ℤ
  | draft => 0 | submitted => 1 | approved => 3

inductive InventoryCheckStatus where
  | draft | submitted | approved
deriving DecidableEq

def InventoryCheckStatus.toI16 : InventoryCheckStatus → ℤ
  | draft => 0 | submitted => 1 | approved => 3

inductive WorkOrderStatus where
  | draft | released | inProgress | completed | closed
deriving DecidableEq

def WorkOrderStatus.toI16 : WorkOrderStatus → ℤ
  | draft => 0 | released => 1 | inProgress => 2 | completed => 3 | closed => 4

inductive WorkOrderOperationStatus where
  | pending | inProgress | completed
deriving DecidableEq

def WorkOrderOperationStatus.toI16 : WorkOrderOperationStatus → ℤ
  | pending => 0 | inProgress => 1 | completed => 2

inductive BomStatus where
  | draft | released | obsolete
deriving DecidableEq

def BomStatus.toI16 : BomStatus → ℤ
  | draft => 0 | released => 1 | obsolete => 2

inductive InspectionOrderStatus where
  | pending | inspected
deriving DecidableEq

def InspectionOrderStatus.toI16 : InspectionOrderStatus → ℤ
  | pending => 0 | inspected => 10

inductive Verdict where
  | pass | fail | conditional
deriving DecidableEq

def Verdict.toI16 : Verdict → ℤ
  | pass => 1 | fail => 2 | conditional => 3

inductive ItemType where
  | rawMaterial | madeInHouse | purchased | semiFinished | finishedGood | packaging | consumable
deriving DecidableEq

/-- `match r.item_type`: what is not known is a consumable. -/
def ItemType.ofI16 (n : ℤ) : ItemType :=
  if n = 1 then rawMaterial
  else if n = 2 then madeInHouse
  else if n = 3 then purchased
  else if n = 4 then semiFinished
  else if n = 5 then finishedGood
  else if n = 6 then packaging
  else consumable

inductive CostType where
  | reference | latestPurchase | manual | weightedAverage
deriving DecidableEq

def CostType.toI16 : CostType → ℤ
  | reference => 1 | latestPurchase => 2 | manual => 3 | weightedAverage => 10

/-- `inventory_transactions.transaction_type`. -/
inductive TransactionType where
  | inbound | outbound | transferIn | transferOut | inventoryCheck | purchaseReturn | materialPick
deriving DecidableEq

def TransactionType.toI16 : TransactionType → ℤ
  | inbound => 1 | outbound => 2 | transferIn => 3 | transferOut => 4 | inventoryCheck => 5
  | purchaseReturn => 6 | materialPick => 7

inductive AuditAction where
  | created | updated | deleted
deriving DecidableEq

def AuditAction.toI16 : AuditAction → ℤ
  | created => 1 | updated => 2 | deleted => 3

/-! ## Rows -/

structure Inventory where
  id : ID
  itemId : ID
  warehouseId : ID
  quantity : ℤ
  lockedQty : ℤ
  version : ℤ
deriving DecidableEq

/-- `UNIQUE (item_id, warehouse_id)`, the conflict target of the ledger's upsert. -/
def Inventory.key (r : Inventory) : ID × ID := (r.itemId, r.warehouseId)

structure InventoryTransaction where
  id : ID
  itemId : ID
  warehouseId : ID
  transactionType : ℤ
  quantity : ℤ
  batchNumber : Option String
  referenceType : String
  referenceId : ID
  beforeQuantity : ℤ
  afterQuantity : ℤ
deriving DecidableEq

structure ItemCost where
  id : ID
  itemId : ID
  costType : ℤ
  unitCost : ℤ
  currency : String
  effectiveAt : Timestamp
  isCurrent : Bool
  remark : Option String
deriving DecidableEq

structure SalesOrder where
  id : ID
  customerId : ID
  status : ℤ
  totalAmount : ℤ := 0
deriving DecidableEq

structure SalesOrderLine where
  id : ID
  orderId : ID
  itemId : ID
  quantity : ℤ
  deliveredQty : ℤ
  closed : Bool
  lineNo : ℤ := 0
  unitPrice : ℤ := 0
  lineTotal : ℤ := 0
deriving DecidableEq

structure SalesDelivery where
  id : ID
  code : String
  orderId : ID
  customerId : ID
  deliveryDate : Date
  status : ℤ
  remark : Option String
deriving DecidableEq

structure SalesDeliveryLine where
  id : ID
  deliveryId : ID
  orderLineId : ID
  itemId : ID
  warehouseId : ID
  quantity : ℤ
  batchNumber : Option String
deriving DecidableEq

structure PurchaseOrder where
  id : ID
  supplierId : ID
  status : ℤ
  totalAmount : ℤ := 0
deriving DecidableEq

structure PurchaseOrderLine where
  id : ID
  orderId : ID
  itemId : ID
  quantity : ℤ
  receivedQty : ℤ
  returnedQty : ℤ
  closed : Bool
  lineNo : ℤ := 0
  unitPrice : ℤ := 0
  lineTotal : ℤ := 0
deriving DecidableEq

structure PurchaseReceipt where
  id : ID
  code : String
  orderId : ID
  supplierId : ID
  receiptDate : Date
  status : ℤ
  remark : Option String
deriving DecidableEq

structure PurchaseReceiptLine where
  id : ID
  receiptId : ID
  orderLineId : ID
  itemId : ID
  warehouseId : ID
  quantity : ℤ
  batchNumber : Option String
  unitCost : ℤ
deriving DecidableEq

structure PurchaseReturn where
  id : ID
  code : String
  orderId : ID
  supplierId : ID
  returnDate : Date
  status : ℤ
  reason : Option String
  remark : Option String
deriving DecidableEq

/-- The stored row has a column that the entity leaves out. -/
structure PurchaseReturnRow extends PurchaseReturn where
  approvedAt : Option Timestamp
deriving DecidableEq

structure PurchaseReturnLine where
  id : ID
  returnId : ID
  receiptLineId : ID
  itemId : ID
  quantity : ℤ
  reason : Option String
deriving DecidableEq

structure WorkOrder where
  id : ID
  code : String
  bomId : ID
  itemId : ID
  plannedQty : ℤ
  completedQty : ℤ
  scrapQty : ℤ
  status : ℤ
  dueDate : Option Date
  remark : Option String
deriving DecidableEq

structure WorkOrderMaterial where
  id : ID
  workOrderId : ID
  itemId : ID
  requiredQty : ℤ
  pickedQty : Option ℤ
deriving DecidableEq

structure ProductionReceipt where
  id : ID
  code : String
  workOrderId : ID
  itemId : ID
  warehouseId : ID
  quantity : ℤ
  batchNumber : Option String
deriving DecidableEq

structure StockTransfer where
  id : ID
  code : String
  fromWarehouseId : ID
  toWarehouseId : ID
  status : ℤ
  transferDate : Date
  remark : Option String
  approvedAt : Option Timestamp
deriving DecidableEq

structure StockTransferItem where
  id : ID
  transferId : ID
  itemId : ID
  quantity : ℤ
deriving DecidableEq

structure WorkOrderOperation where
  id : ID
  workOrderId : ID
  name : String
  sequence : ℤ
  plannedQty : ℤ
  completedQty : ℤ
  scrapQty : ℤ
  status : ℤ
deriving DecidableEq

structure Bom where
  id : ID
  code : String
  name : String
  itemId : ID
  version : ℤ
  status : ℤ
  totalQty : ℤ
  remark : Option String
deriving DecidableEq

structure BomItem where
  id : ID
  bomId : ID
  itemId : ID
  quantity : ℤ
deriving DecidableEq

structure InventoryCheck where
  id : ID
  code : String
  warehouseId : ID
  status : ℤ
  planDate : Date
  remark : Option String
  approvedAt : Option Timestamp
deriving DecidableEq

structure InventoryCheckItem where
  id : ID
  checkId : ID
  itemId : ID
  bookQty : ℤ
  actualQty : ℤ
  diffQty : ℤ
  remark : Option String
deriving DecidableEq

structure SalesInvoice where
  id : ID
  code : String
  orderId : ID
  customerId : ID
  invoiceNumber : Option String
  invoiceDate : Option Date
  amount : ℤ
  taxAmount : ℤ
  totalAmount : ℤ
  status : ℤ
  remark : Option String
deriving DecidableEq

/-- The stored row has a column that the entity leaves out. -/
structure SalesInvoiceRow extends SalesInvoice where
  paidAmount : ℤ
deriving DecidableEq

structure PurchaseInvoice where
  id : ID
  code : String
  orderId : ID
  supplierId : ID
  invoiceNumber : Option String
  invoiceDate : Option Date
  amount : ℤ
  taxAmount : ℤ
  totalAmount : ℤ
  status : ℤ
  remark : Option String
deriving DecidableEq

/-- The stored row has a column that the entity leaves out. -/
structure PurchaseInvoiceRow extends PurchaseInvoice where
  paidAmount : ℤ
deriving DecidableEq

structure Payment where
  id : ID
  code : String
  paymentType : ℤ
  invoiceType : String
  invoiceId : ID
  amount : ℤ
  paymentDate : Date
  paymentMethod : Option String
  remark : Option String
deriving DecidableEq

structure ItemRow where
  id : ID
  code : String
  name : String
  categoryId : Option ID
  itemType : ℤ
  baseUnit : String
  parentItemId : Option ID
  spec : Option String
  isActive : Bool
  reorderPoint : ℤ
  safetyStock : ℤ
  version : ℤ
deriving DecidableEq

/-- The entity has a category always, 0 where the row has none. -/
structure Item where
  id : ID
  code : String
  name : String
  categoryId : ID
  itemType : ItemType
  baseUnit : String
  parentItemId : Option ID
  spec : Option String
  isActive : Bool
  reorderPoint : ℤ
  safetyStock : ℤ
  version : ℤ
deriving DecidableEq

def ItemRow.toItem (r : ItemRow) : Item where
  id := r.id
  code := r.code
  name := r.name
  categoryId := r.categoryId.getD 0
  itemType := .ofI16 r.itemType
  baseUnit := r.baseUnit
  parentItemId := r.parentItemId
  spec := r.spec
  isActive := r.isActive
  reorderPoint := r.reorderPoint
  safetyStock := r.safetyStock
  version := r.version

structure ItemCategory where
  id : ID
  name : String
  parentId : Option ID
  sortOrder : ℤ
  isActive : Bool
deriving DecidableEq

structure Customer where
  id : ID
  code : String
  name : String
  contactPerson : Option String
  phone : Option String
  address : Option String
  paymentTerms : Option String
  isActive : Bool
deriving DecidableEq

structure InspectionTemplate where
  id : ID
  code : String
  name : String
  category : ℤ
  isActive : Bool
deriving DecidableEq

structure InspectionTemplateItem where
  id : ID
  templateId : ID
  name : String
  isRequired : Bool
  sortOrder : ℤ
deriving DecidableEq

structure InspectionOrder where
  id : ID
  code : String
  templateId : Option ID
  sourceType : String
  sourceId : ID
  itemId : ID
  lotQty : ℤ
  sampleQty : ℤ
  inspector : Option String
  result : Option ℤ
  status : ℤ
  inspectedAt : Option Timestamp
deriving DecidableEq

structure InspectionResult where
  id : ID
  inspectionId : ID
  templateItemId : ID
  result : ℤ
  actualValue : Option String
  remark : Option String
deriving DecidableEq

/-- The entities whose rows are kept as audit snapshots. -/
inductive Snapshot where
  | salesOrder (r : SalesOrder)
  | salesDelivery (r : SalesDelivery)
  | purchaseOrder (r : PurchaseOrder)
  | purchaseReceipt (r : PurchaseReceipt)
  | purchaseReturn (r : PurchaseReturn)
  | workOrder (r : WorkOrder)
  | productionReceipt (r : ProductionReceipt)
  | stockTransfer (r : StockTransfer)
  | inventoryCheck (r : InventoryCheck)
  | salesInvoice (r : SalesInvoice)
  | purchaseInvoice (r : PurchaseInvoice)
  | payment (r : Payment)
  | item (r : Item)
  | itemCost (r : ItemCost)
  | itemCategory (r : ItemCategory)
  | bom (r : Bom)
  | customer (r : Customer)
  | inspectionTemplate (r : InspectionTemplate)
  | inspectionOrder (r : InspectionOrder)
deriving DecidableEq

structure Operator where
  operatorId : ID
  ip : Option String
  userAgent : Option String
deriving DecidableEq

structure AuditLog where
  id : ID
  operatorId : ID
  action : ℤ
  entity : String
  entityId : ID
  before : Option Snapshot
  after : Option Snapshot
  ip : Option String
  userAgent : Option String
deriving DecidableEq

/-! ## The database -/

/-- `inventoryTransactions` and `auditLogs` are only ever appended to, and no statement
looks a row of theirs up by its identifier. -/
structure Db where
  inventories : Table Inventory.key
  inventoryTransactions : List InventoryTransaction
  itemCosts : Table ItemCost.id
  salesOrders : Table SalesOrder.id
  salesOrderLines : Table SalesOrderLine.id
  salesDeliveries : Table SalesDelivery.id
  salesDeliveryLines : Table SalesDeliveryLine.id
  purchaseOrders : Table PurchaseOrder.id
  purchaseOrderLines : Table PurchaseOrderLine.id
  purchaseReceipts : Table PurchaseReceipt.id
  purchaseReceiptLines : Table PurchaseReceiptLine.id
  purchaseReturns : Table fun r : PurchaseReturnRow => r.id
  purchaseReturnLines : Table PurchaseReturnLine.id
  workOrders : Table WorkOrder.id
  workOrderMaterials : Table WorkOrderMaterial.id
  productionReceipts : Table ProductionReceipt.id
  stockTransfers : Table StockTransfer.id
  stockTransferItems : Table StockTransferItem.id
  workOrderOperations : Table WorkOrderOperation.id
  boms : Table Bom.id
  bomItems : Table BomItem.id
  inventoryChecks : Table InventoryCheck.id
  inventoryCheckItems : Table InventoryCheckItem.id
  salesInvoices : Table fun r : SalesInvoiceRow => r.id
  purchaseInvoices : Table fun r : PurchaseInvoiceRow => r.id
  payments : Table Payment.id
  items : Table ItemRow.id
  itemCategories : Table ItemCategory.id
  customers : Table Customer.id
  inspectionTemplates : Table InspectionTemplate.id
  inspectionTemplateItems : Table InspectionTemplateItem.id
  inspectionOrders : Table InspectionOrder.id
  inspectionResults : Table InspectionResult.id
  auditLogs : List AuditLog

namespace Db

def empty : Db where
  inventories := .empty
  inventoryTransactions := []
  itemCosts := .empty
  salesOrders := .empty
  salesOrderLines := .empty
  salesDeliveries := .empty
  salesDeliveryLines := .empty
  purchaseOrders := .empty
  purchaseOrderLines := .empty
  purchaseReceipts := .empty
  purchaseReceiptLines := .empty
  purchaseReturns := .empty
  purchaseReturnLines := .empty
  workOrders := .empty
  workOrderMaterials := .empty
  productionReceipts := .empty
  stockTransfers := .empty
  stockTransferItems := .empty
  workOrderOperations := .empty
  boms := .empty
  bomItems := .empty
  inventoryChecks := .empty
  inventoryCheckItems := .empty
  salesInvoices := .empty
  purchaseInvoices := .empty
  payments := .empty
  items := .empty
  itemCategories := .empty
  customers := .empty
  inspectionTemplates := .empty
  inspectionTemplateItems := .empty
  inspectionOrders := .empty
  inspectionResults := .empty
  auditLogs := []

/-- `inventories.quantity` of an item in a warehouse, if there is a row. -/
def quantity? (db : Db) (item warehouse : ID) : Option ℤ :=
  (db.inventories.get? (item, warehouse)).map Inventory.quantity

/-- The stock of an item in a warehouse, 0 without a row. -/
def stock (db : Db) (item warehouse : ID) : ℤ := (db.quantity? item warehouse).getD 0

/-- The stock of an item over all warehouses. -/
def total (db : Db) (item : ID) : ℤ :=
  db.inventories.tally (fun r => r.itemId = item) Inventory.quantity

/-- The journal of an item in a warehouse, in insertion order. -/
def journal (db : Db) (item warehouse : ID) : List InventoryTransaction :=
  db.inventoryTransactions.filter fun t => t.itemId = item && t.warehouseId = warehouse

/-- Everything but document headers, costs and the audit trail. -/
def withoutDocuments (db : Db) : Db :=
  { db with
    itemCosts := .empty
    salesDeliveries := .empty
    purchaseReceipts := .empty
    purchaseReturns := .empty
    productionReceipts := .empty
    stockTransfers := .empty
    auditLogs := [] }

end Db

/-- The tables whose rows are locked by primary key. -/
inductive TableName where
  | itemCosts | salesOrders | salesOrderLines | salesDeliveries | salesDeliveryLines
  | purchaseOrders | purchaseOrderLines | purchaseReceipts | purchaseReceiptLines
  | purchaseReturns | purchaseReturnLines | workOrders | workOrderMaterials | productionReceipts
  | stockTransfers | stockTransferItems | workOrderOperations | inventoryChecks
  | inventoryCheckItems | salesInvoices | purchaseInvoices | payments | items | itemCategories
  | boms | bomItems | customers | inspectionTemplates | inspectionTemplateItems
  | inspectionOrders | inspectionResults
deriving DecidableEq

/-- What a statement locks: an `inventories` row by its conflict target, any other row by its
primary key. -/
inductive Key where
  | inventory (item warehouse : ID)
  | row (table : TableName) (id : ID)
deriving DecidableEq

/-- The row locks of a statement that looks for one row. -/
def lockIf (found : Bool) (k : Key) : List Key := if found then [k] else []

/-- The same by primary key. -/
def lockRow (table : TableName) (id : ID) (found : Bool) : List Key :=
  lockIf found (.row table id)

/-! ## Errors -/

inductive InventoryError where
  | insufficientInventory
deriving DecidableEq

inductive SalesError where
  | notFound | orderNotApproved | lineNotFound | overDelivery | emptyOrder
deriving DecidableEq

inductive PurchaseError where
  | notFound | orderNotApproved | notDraft | emptyOrder | lineNotFound | overReceipt
deriving DecidableEq

inductive ProductionError where
  | notFound | invalidStatus | insufficientMaterials
deriving DecidableEq

inductive WarehouseError where
  | notFound
deriving DecidableEq

inductive FinanceError where
  | invoiceNotFound | invalidInvoiceType | invoiceAlreadyFullyPaid | invalidPaymentAmount
  | invalidPeriod
deriving DecidableEq

inductive ProductError where
  | bomNotFound | invalidStatus
deriving DecidableEq

inductive CustomerError where
  | notFound
deriving DecidableEq

inductive QualityError where
  | inspectionNotFound | invalidStatus
deriving DecidableEq

inductive ItemError where
  | notFound | categoryNotEmpty
deriving DecidableEq

/-- What the database itself refuses. -/
inductive SqlError where
  | duplicateKey
  | foreignKey
  | bigintOutOfRange
  | rowNotFound
deriving DecidableEq

inductive AppError where
  | inventory (e : InventoryError)
  | sales (e : SalesError)
  | purchase (e : PurchaseError)
  | production (e : ProductionError)
  | warehouse (e : WarehouseError)
  | finance (e : FinanceError)
  | item (e : ItemError)
  | product (e : ProductError)
  | customer (e : CustomerError)
  | quality (e : QualityError)
  | invalidTransition (current : ℤ) (action : String)
  | sql (e : SqlError)
  | divisionPanic
deriving DecidableEq

/-- The refusal of an `INSERT` whose primary key is taken. -/
def unique (taken : Bool) : Option AppError := if taken then some (.sql .duplicateKey) else none

/-- The refusal of an `INSERT` that refers to a row that is not there. -/
def references (found : Bool) : Option AppError := if found then none else some (.sql .foreignKey)

@[simp] theorem unique_eq_none {taken : Bool} : unique taken = none ↔ taken = false := by
  cases taken <;> simp [unique]

@[simp] theorem references_eq_none {found : Bool} : references found = none ↔ found = true := by
  cases found <;> simp [references]

/-- The message key of an error that the application raises itself. -/
def AppError.message : AppError → Option String
  | inventory .insufficientInventory => some "insufficient_inventory"
  | sales .notFound => some "sales_document_not_found"
  | sales .orderNotApproved => some "sales_order_not_approved"
  | sales .lineNotFound => some "sales_order_line_not_found"
  | sales .overDelivery => some "sales_over_delivery"
  | sales .emptyOrder => some "sales_order_empty"
  | purchase .notFound => some "purchase_order_not_found"
  | purchase .orderNotApproved => some "purchase_order_not_approved"
  | purchase .notDraft => some "purchase_order_not_draft"
  | purchase .emptyOrder => some "purchase_order_empty"
  | purchase .lineNotFound => some "purchase_order_line_not_found"
  | purchase .overReceipt => some "purchase_over_receipt"
  | production .notFound => some "work_order_not_found"
  | production .invalidStatus => some "invalid_status_transition"
  | production .insufficientMaterials => some "insufficient_materials"
  | warehouse .notFound => some "warehouse_not_found"
  | finance .invoiceNotFound => some "invoice_not_found"
  | finance .invalidInvoiceType => some "invalid_invoice_type"
  | finance .invoiceAlreadyFullyPaid => some "invoice_already_fully_paid"
  | finance .invalidPaymentAmount => some "invalid_payment_amount"
  | finance .invalidPeriod => some "invalid_period"
  | item .notFound => some "item_not_found"
  | item .categoryNotEmpty => some "item_category_not_empty"
  | product .bomNotFound => some "bom_not_found"
  | product .invalidStatus => some "invalid_status_transition"
  | customer .notFound => some "customer_not_found"
  | quality .inspectionNotFound => some "inspection_order_not_found"
  | quality .invalidStatus => some "invalid_status_transition"
  | invalidTransition _ _ => some "invalid_status_transition"
  | sql _ => none
  | divisionPanic => none

/-! ## The world outside -/

/-- What a handler asks: `ID::new()`, `nextval`, the UTC date as `%Y%m%d` and as a date, the
business date, the database's `CURRENT_DATE` and `NOW()`, and `Utc::now()`. -/
inductive Ask where
  | newId
  | nextval (seqName : String)
  | utcYmd
  | utcDate
  | today
  | currentDate
  | now
  | utcNow
deriving DecidableEq

@[reducible] def Answer : Ask → Type
  | .newId => ID
  | .nextval _ => ℤ
  | .utcYmd => String
  | .utcDate => Date
  | .today => Date
  | .currentDate => Date
  | .now => Timestamp
  | .utcNow => Timestamp

/-- An outside world that answers every question by its number, counted from `base`. -/
def numbered (base : ℤ) (n : ℕ) : (q : Ask) → Answer q
  | .newId => base + n
  | .nextval _ => base + n
  | .utcYmd => "20240101"
  | .utcDate => 0
  | .today => 0
  | .currentDate => 0
  | .now => 0
  | .utcNow => 0

/-- A transaction program of the ERP. -/
abbrev Handler (α : Type) := Prog Db Key Answer AppError α

abbrev ask (q : Ask) : Handler (Answer q) := Prog.ask q

/-- `INSERT` of a row with primary key `id`. -/
def insertRow (table : TableName) (id : ID) (taken : Db → Bool) (w : Db → Db) : Handler Unit :=
  Prog.insert [.row table id] (fun db => unique (taken db)) w

end Slab
