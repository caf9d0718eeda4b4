import Slab.Txn.Live
import Slab.Erp.Production

/-!
# Work orders

The handlers that create, release, report on and complete work orders. Release and report open no
transaction: each of their statements commits on its own. Creation, completion and the pick of
materials (`WorkOrderMaterialPick`) work in one transaction.

## Main definitions

- `WorkOrderCreate.execute`, `WorkOrderRelease.execute`, `WorkOrderComplete.execute`,
  `WorkOrderOperationReport.execute` — the handlers
- `WorkOrderRequest` — the requests on work orders, and `WorkOrderRequest.auto`, those without a
  transaction
-/

namespace Slab

open Txn

/-- `SET status = $1`. -/
def WorkOrder.setStatus (status : ℤ) (r : WorkOrder) : WorkOrder := { r with status := status }

theorem WorkOrder.setStatus_id (status : ℤ) (r : WorkOrder) : (r.setStatus status).id = r.id := rfl

/-- `SET completed_qty = …, scrap_qty = …`. -/
def WorkOrder.setQuantities (completedQty scrapQty : ℤ) (r : WorkOrder) : WorkOrder :=
  { r with completedQty := completedQty, scrapQty := scrapQty }

theorem WorkOrder.setQuantities_id (completedQty scrapQty : ℤ) (r : WorkOrder) :
    (r.setQuantities completedQty scrapQty).id = r.id := rfl

/-- `SET completed_qty = completed_qty + $1, scrap_qty = scrap_qty + $2, status = $3`. -/
def WorkOrderOperation.report (completedQty scrapQty status : ℤ) (r : WorkOrderOperation) :
    WorkOrderOperation :=
  { r with
    completedQty := r.completedQty + completedQty
    scrapQty := r.scrapQty + scrapQty
    status := status }

theorem WorkOrderOperation.report_id (completedQty scrapQty status : ℤ) (r : WorkOrderOperation) :
    (r.report completedQty scrapQty status).id = r.id := rfl

namespace WorkOrderCreate

structure OperationInput where
  name : String
  sequence : ℤ
deriving DecidableEq

structure CreateWorkOrderRequest where
  bomId : ID
  itemId : ID
  plannedQty : ℤ
  dueDate : Option Date
  remark : Option String
  operations : List OperationInput
deriving DecidableEq

structure CreateWorkOrderResponse where
  id : ID
  code : String
deriving DecidableEq

/-- The stored row: what the `INSERT` leaves out is 0. -/
def header (id : ID) (code : String) (request : CreateWorkOrderRequest) : WorkOrder where
  id := id
  code := code
  bomId := request.bomId
  itemId := request.itemId
  plannedQty := request.plannedQty
  completedQty := 0
  scrapQty := 0
  status := WorkOrderStatus.draft.toI16
  dueDate := request.dueDate
  remark := request.remark

def insertHeader (row : WorkOrder) : Handler Unit :=
  insertRow .workOrders row.id (fun db => db.workOrders.has row.id) fun db =>
    { db with workOrders := db.workOrders.insert row }

/-- One round of `for op in &request.operations`. -/
def insertOperation (id : ID) (plannedQty : ℤ) (op : OperationInput) : Handler Unit := do
  let opId ← ask .newId
  insertRow .workOrderOperations opId (fun db => db.workOrderOperations.has opId) fun db =>
    { db with
      workOrderOperations := db.workOrderOperations.insert {
        id := opId, workOrderId := id, name := op.name, sequence := op.sequence
        plannedQty := plannedQty, completedQty := 0, scrapQty := 0
        status := WorkOrderOperationStatus.pending.toI16 } }

variable (ar : Arith)

/-- One round of `for bi in bom_items`. -/
def insertMaterial (id : ID) (plannedQty : ℤ) (bi : BomItem) : Handler Unit := do
  let matId ← ask .newId
  let qty := ar.mul bi.quantity plannedQty
  insertRow .workOrderMaterials matId (fun db => db.workOrderMaterials.has matId) fun db =>
    { db with
      workOrderMaterials := db.workOrderMaterials.insert {
        id := matId, workOrderId := id, itemId := bi.itemId, requiredQty := qty
        pickedQty := some 0 } }

/-- `SELECT … FROM bom_items WHERE bom_id = $1`. -/
def bomItems (bomId : ID) (db : Db) : List BomItem :=
  db.bomItems.rows.filter fun bi => bi.bomId = bomId

def execute (ctx : Operator) (request : CreateWorkOrderRequest) :
    Handler CreateWorkOrderResponse := do
  let id ← ask .newId
  let code ← DocNumberer.nextNumber "seq_work_order" "MO"
  insertHeader (header id code request)
  Prog.forEach request.operations (insertOperation id request.plannedQty)
  let items ← Prog.select (bomItems request.bomId)
  Prog.forEach items (insertMaterial ar id request.plannedQty)
  let row ← Prog.select fun db => db.workOrders.get? id
  let workOrder ← Prog.orFail row (.sql .rowNotFound)
  AuditService.recordCreate "work_order" id ctx (.workOrder workOrder)
  pure { id := id, code := code }

end WorkOrderCreate

def setWorkOrderStatus (id : ID) (status : ℤ) (db : Db) : Db :=
  { db with
    workOrders := db.workOrders.modify id (WorkOrder.setStatus status)
      (WorkOrder.setStatus_id status) }

/-- `UPDATE work_orders SET status = $1 WHERE id = $2`. -/
def updateWorkOrderStatus (id : ID) (status : ℤ) : Handler Unit :=
  Prog.update (fun db => lockRow .workOrders id (db.workOrders.has id))
    (setWorkOrderStatus id status)

namespace WorkOrderRelease

def execute (ctx : Operator) (id : ID) : Handler Unit := do
  let found ← Prog.select fun db => db.workOrders.get? id
  let before ← Prog.orFail found (.production .notFound)
  Prog.ensure (decide (before.status = WorkOrderStatus.draft.toI16)) (.production .invalidStatus)
  updateWorkOrderStatus id WorkOrderStatus.released.toI16
  WorkOrderMaterialPick.recordPick ctx id before

end WorkOrderRelease

namespace WorkOrderComplete

/-- The work order, locked, while it can be completed. -/
def lockOpen (id : ID) : Handler WorkOrder := do
  let found ← Prog.selectForUpdate (fun db => lockRow .workOrders id (db.workOrders.has id))
    fun db => db.workOrders.get? id
  let before ← Prog.orFail found (.production .notFound)
  Prog.ensure (!(decide (before.status < WorkOrderStatus.released.toI16) ||
    decide (before.status ≥ WorkOrderStatus.completed.toI16))) (.production .invalidStatus)
  pure before

def execute (ctx : Operator) (id : ID) : Handler Unit := do
  let before ← lockOpen id
  updateWorkOrderStatus id WorkOrderStatus.completed.toI16
  WorkOrderMaterialPick.recordPick ctx id before

end WorkOrderComplete

namespace WorkOrderOperationReport

structure ReportRequest where
  completedQty : ℤ
  scrapQty : Option ℤ
deriving DecidableEq

/-- `WHERE id = $4 AND work_order_id = $5`. -/
def operation (operationId workOrderId : ID) (db : Db) : Option WorkOrderOperation :=
  (db.workOrderOperations.get? operationId).filter fun op => op.workOrderId = workOrderId

/-- `(SELECT COALESCE(SUM(…), 0) FROM work_order_operations WHERE work_order_id = $1)`, for both
quantities. -/
def sums (workOrderId : ID) (db : Db) : ℤ × ℤ :=
  (db.workOrderOperations.tally (fun op => op.workOrderId = workOrderId)
      WorkOrderOperation.completedQty,
    db.workOrderOperations.tally (fun op => op.workOrderId = workOrderId)
      WorkOrderOperation.scrapQty)

/-- What the `UPDATE` of an operation makes of the database. -/
def writeOperation (operationId workOrderId : ID) (request : ReportRequest) (db : Db) : Db :=
  if (operation operationId workOrderId db).isSome then
    { db with
      workOrderOperations := db.workOrderOperations.modify operationId
        (WorkOrderOperation.report request.completedQty (request.scrapQty.getD 0)
          WorkOrderOperationStatus.completed.toI16)
        (WorkOrderOperation.report_id _ _ _) }
  else db

/-- What the `UPDATE` of the work order makes of the database. -/
def writeHeader (workOrderId : ID) (s : ℤ × ℤ) (db : Db) : Db :=
  { db with
    workOrders := db.workOrders.modify workOrderId (WorkOrder.setQuantities s.1 s.2)
      (WorkOrder.setQuantities_id s.1 s.2) }

variable (ar : Arith)

/-- The quantities of a row have to be stored in 64 bits. -/
def outOfRange (completedQty scrapQty : ℤ) : Option AppError :=
  if ar.Fits completedQty ∧ ar.Fits scrapQty then none else some (.sql .bigintOutOfRange)

def updateOperation (operationId workOrderId : ID) (request : ReportRequest) : Handler Unit :=
  let keys := fun db => lockRow .workOrderOperations operationId
    (operation operationId workOrderId db).isSome
  Prog.writeIf keys keys
    (fun db => (operation operationId workOrderId db).bind fun op =>
      outOfRange ar (op.completedQty + request.completedQty)
        (op.scrapQty + request.scrapQty.getD 0))
    (writeOperation operationId workOrderId request)

/-- The sums are those of the snapshot that the `UPDATE` takes when it starts; it may then have to
wait for the row. -/
def updateHeader (workOrderId : ID) : Handler Unit := do
  let s ← Prog.select (sums workOrderId)
  let keys := fun db => lockRow .workOrders workOrderId (db.workOrders.has workOrderId)
  Prog.writeIf keys keys
    (fun db => if db.workOrders.has workOrderId then outOfRange ar s.1 s.2 else none)
    (writeHeader workOrderId s)

def execute (ctx : Operator) (workOrderId operationId : ID) (request : ReportRequest) :
    Handler Unit := do
  let found ← Prog.select fun db => db.workOrders.get? workOrderId
  let before ← Prog.orFail found (.production .notFound)
  updateOperation ar operationId workOrderId request
  updateHeader ar workOrderId
  WorkOrderMaterialPick.recordPick ctx workOrderId before

end WorkOrderOperationReport

/-! ## What the statements leave alone -/

section Preserves

variable {τ : Type} {f : Db → τ}

theorem WorkOrderCreate.insertOperation_preserves (id : ID) (plannedQty : ℤ)
    (op : WorkOrderCreate.OperationInput)
    (h : ∀ db t, f { db with workOrderOperations := t } = f db) :
    (WorkOrderCreate.insertOperation id plannedQty op).Preserves f :=
  (Prog.preserves_ask _).bind fun _ => Prog.preserves_insert fun _ => h _ _

theorem WorkOrderCreate.insertMaterial_preserves (ar : Arith) (id : ID) (plannedQty : ℤ)
    (bi : BomItem) (h : ∀ db t, f { db with workOrderMaterials := t } = f db) :
    (WorkOrderCreate.insertMaterial ar id plannedQty bi).Preserves f :=
  (Prog.preserves_ask _).bind fun _ => Prog.preserves_insert fun _ => h _ _

theorem WorkOrderMaterialPick.recordPick_leaves (ctx : Operator) (id : ID) (before : WorkOrder)
    (h : ∀ db logs, f { db with auditLogs := logs } = f db) :
    (WorkOrderMaterialPick.recordPick ctx id before).Preserves f :=
  (Prog.preserves_select _).bind fun _ => (Prog.preserves_orFail _ _).bind fun _ =>
    (AuditService.record_preserves _ _ _ _ _ _).factor fun db => h db []

theorem WorkOrderMaterialPick.pickItem_preserves (ar : Arith) (id : ID)
    (item : WorkOrderMaterialPick.PickItem)
    (hmat : ∀ db t, f { db with workOrderMaterials := t } = f db)
    (hstock : ∀ db, f (InventoryLedger.withoutStock db) = f db) :
    (WorkOrderMaterialPick.pickItem ar id item).Preserves f := by
  refine (Prog.preserves_selectForUpdate _ _).bind fun found => ?_
  refine (Prog.preserves_orFail _ _).bind fun mat => ?_
  refine (Prog.preserves_ensure _ _).bind fun _ => ?_
  refine (Prog.preserves_update fun db => hmat _ _).bind fun _ => ?_
  exact (InventoryLedger.issue_preserves _).factor hstock

theorem WorkOrderOperationReport.updateOperation_preserves (ar : Arith)
    (operationId workOrderId : ID) (request : WorkOrderOperationReport.ReportRequest)
    (h : ∀ db t, f { db with workOrderOperations := t } = f db) :
    (WorkOrderOperationReport.updateOperation ar operationId workOrderId request).Preserves f := by
  refine Prog.preserves_writeIf fun db => ?_
  unfold WorkOrderOperationReport.writeOperation
  split
  · exact h _ _
  · rfl

end Preserves

/-! ## Requests -/

inductive WorkOrderRequest where
  | create (ctx : Operator) (request : WorkOrderCreate.CreateWorkOrderRequest)
  | release (ctx : Operator) (id : ID)
  | pick (ctx : Operator) (id : ID) (request : WorkOrderMaterialPick.PickRequest)
  | report (ctx : Operator) (workOrderId operationId : ID)
      (request : WorkOrderOperationReport.ReportRequest)
  | complete (ctx : Operator) (id : ID)
deriving DecidableEq

namespace WorkOrderRequest

def run (ar : Arith) : WorkOrderRequest → Handler Unit
  | create ctx request => do
    let _ ← WorkOrderCreate.execute ar ctx request
    pure ()
  | release ctx id => WorkOrderRelease.execute ctx id
  | pick ctx id request => WorkOrderMaterialPick.execute ar ctx id request
  | report ctx workOrderId operationId request =>
    WorkOrderOperationReport.execute ar ctx workOrderId operationId request
  | complete ctx id => WorkOrderComplete.execute ctx id

/-- The handlers that open no transaction. -/
def auto : WorkOrderRequest → Bool
  | release _ _ | report _ _ _ _ => true
  | create _ _ | pick _ _ _ | complete _ _ => false

end WorkOrderRequest

end Slab
