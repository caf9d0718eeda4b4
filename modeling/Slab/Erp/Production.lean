import Slab.Erp.Services
import Slab.Erp.Ledger

/-!
# Material picks and production receipts

The handlers of `POST /api/v1/work-orders/{id}/pick` and `POST /api/v1/production-receipts`.
-/

namespace Slab

open Txn

/-- `SET picked_qty = $1`. -/
def WorkOrderMaterial.pick (newPicked : ℤ) (r : WorkOrderMaterial) : WorkOrderMaterial :=
  { r with pickedQty := some newPicked }

theorem WorkOrderMaterial.pick_id (newPicked : ℤ) (r : WorkOrderMaterial) :
    (r.pick newPicked).id = r.id := rfl

namespace WorkOrderMaterialPick

structure PickItem where
  materialId : ID
  itemId : ID
  warehouseId : ID
  quantity : ℤ
deriving DecidableEq

structure PickRequest where
  items : List PickItem
deriving DecidableEq

/-- `WHERE id = $1 AND work_order_id = $2`. -/
def material (materialId workOrderId : ID) (db : Db) : Option WorkOrderMaterial :=
  (db.workOrderMaterials.get? materialId).filter fun m => m.workOrderId = workOrderId

/-- The stock movement of a picked item. -/
def issueCommand (workOrderId : ID) (item : PickItem) : LedgerCommand where
  itemId := item.itemId
  warehouseId := item.warehouseId
  quantity := item.quantity
  txType := .materialPick
  referenceType := "work_order_pick"
  referenceId := workOrderId
  batchNumber := none

def updateMaterial (materialId : ID) (newPicked : ℤ) : Handler Unit :=
  Prog.update
    (fun db => lockRow .workOrderMaterials materialId (db.workOrderMaterials.has materialId))
    fun db => { db with
      workOrderMaterials := db.workOrderMaterials.modify materialId
        (WorkOrderMaterial.pick newPicked) (WorkOrderMaterial.pick_id newPicked) }

variable (ar : Arith)

/-- One round of `for item in &request.items`. -/
def pickItem (workOrderId : ID) (item : PickItem) : Handler Unit := do
  let found ← Prog.selectForUpdate
    (fun db => lockRow .workOrderMaterials item.materialId
      (material item.materialId workOrderId db).isSome)
    (material item.materialId workOrderId)
  let mat ← Prog.orFail found (.production .notFound)
  let currentPicked := mat.pickedQty.getD 0
  let newPicked := ar.add currentPicked item.quantity
  Prog.ensure (!decide (newPicked > mat.requiredQty)) (.production .insufficientMaterials)
  updateMaterial item.materialId newPicked
  InventoryLedger.issue ar (issueCommand workOrderId item)

/-- The counter that a picked item writes. -/
def writeMaterial (materialId : ID) (newPicked : ℤ) (db : Db) : Db :=
  { db with
    workOrderMaterials := db.workOrderMaterials.modify materialId
      (WorkOrderMaterial.pick newPicked) (WorkOrderMaterial.pick_id newPicked) }

/-- An item that goes through refers to a material of the work order with enough left, and
issues the stock. -/
theorem pickItem_runs_ok {workOrderId : ID} {item : PickItem} {v w : Db}
    (h : (pickItem ar workOrderId item).Runs v w (.ok ())) :
    ∃ mat, v.workOrderMaterials.get? item.materialId = some mat ∧ mat.workOrderId = workOrderId ∧
      ar.add (mat.pickedQty.getD 0) item.quantity ≤ mat.requiredQty ∧
      (InventoryLedger.issue ar (issueCommand workOrderId item)).Runs
        (writeMaterial item.materialId (ar.add (mat.pickedQty.getD 0) item.quantity) v) w
        (.ok ()) := by
  simp only [pickItem, Prog.runs_bind_ok, Prog.runs_selectForUpdate, Prog.runs_orFail_ok,
    Prog.runs_ensure_ok, updateMaterial, Prog.runs_update] at h
  obtain ⟨_, found, ⟨rfl, hfound⟩, _, mat, ⟨rfl, hmat⟩, _, _, ⟨rfl, hle⟩, _, _, ⟨rfl, -⟩,
    hissue⟩ := h
  have hline := (Except.ok.inj hfound).symm.trans hmat
  obtain ⟨hget, horder⟩ := Option.filter_eq_some_iff.mp hline
  exact ⟨mat, hget, by simpa using horder, by simpa using hle, hissue⟩

/-- The work order, locked, once it is released. -/
def lockReleased (workOrderId : ID) : Handler WorkOrder := do
  let found ← Prog.selectForUpdate
    (fun db => lockRow .workOrders workOrderId (db.workOrders.has workOrderId))
    fun db => db.workOrders.get? workOrderId
  let before ← Prog.orFail found (.production .notFound)
  Prog.ensure (!decide (before.status < WorkOrderStatus.released.toI16))
    (.production .invalidStatus)
  pure before

/-- The audit row, with the work order read back. -/
def recordPick (ctx : Operator) (workOrderId : ID) (before : WorkOrder) : Handler Unit := do
  let row ← Prog.select fun db => db.workOrders.get? workOrderId
  let after ← Prog.orFail row (.sql .rowNotFound)
  AuditService.recordUpdated "work_order" workOrderId ctx (.workOrder before) (.workOrder after)

theorem lockReleased_preserves {τ : Type} (f : Db → τ) (workOrderId : ID) :
    (lockReleased workOrderId).Preserves f :=
  (Prog.preserves_selectForUpdate _ _).bind fun _ => (Prog.preserves_orFail _ _).bind fun _ =>
    (Prog.preserves_ensure _ _).bind fun _ => Prog.preserves_ret _

theorem recordPick_preserves (ctx : Operator) (workOrderId : ID) (before : WorkOrder) :
    (recordPick ctx workOrderId before).Preserves Db.withoutDocuments := by
  refine (Prog.preserves_select _).bind fun row => ?_
  refine (Prog.preserves_orFail _ _).bind fun after => ?_
  exact (AuditService.record_preserves _ _ _ _ _ _).factor (by intro _; rfl)

def execute (ctx : Operator) (workOrderId : ID) (request : PickRequest) : Handler Unit := do
  let before ← lockReleased workOrderId
  Prog.forEach request.items (pickItem ar workOrderId)
  recordPick ctx workOrderId before

end WorkOrderMaterialPick

namespace ProductionReceiptCreate

structure CreateReceiptRequest where
  workOrderId : ID
  warehouseId : ID
  quantity : ℤ
  batchNumber : Option String
deriving DecidableEq

structure CreateReceiptResponse where
  id : ID
  code : String
deriving DecidableEq

/-- The stock movement of a production receipt: the work order's own item. -/
def receiveCommand (item id : ID) (request : CreateReceiptRequest) : LedgerCommand where
  itemId := item
  warehouseId := request.warehouseId
  quantity := request.quantity
  txType := .inbound
  referenceType := "production_receipt"
  referenceId := id
  batchNumber := request.batchNumber

/-- The document, for a work order of any status; returns the work order's item with it. -/
def createHeader (request : CreateReceiptRequest) : Handler (ID × CreateReceiptResponse) := do
  let found ← Prog.selectForUpdate
    (fun db => lockRow .workOrders request.workOrderId (db.workOrders.has request.workOrderId))
    fun db => db.workOrders.get? request.workOrderId
  let wo ← Prog.orFail found (.production .notFound)
  let code ← DocNumberer.nextNumber "seq_production_receipt" "PR"
  let id ← ask .newId
  insertRow .productionReceipts id (fun db => db.productionReceipts.has id) fun db =>
    { db with
      productionReceipts := db.productionReceipts.insert {
        id := id, code := code, workOrderId := request.workOrderId, itemId := wo.itemId
        warehouseId := request.warehouseId, quantity := request.quantity
        batchNumber := request.batchNumber } }
  pure (wo.itemId, { id := id, code := code })

/-- The audit row, from the document read back. -/
def recordHeader (ctx : Operator) (id : ID) : Handler Unit := do
  let row ← Prog.select fun db => db.productionReceipts.get? id
  let receipt ← Prog.orFail row (.sql .rowNotFound)
  AuditService.recordCreate "production_receipt" id ctx (.productionReceipt receipt)

theorem createHeader_preserves (request : CreateReceiptRequest) :
    (createHeader request).Preserves Db.withoutDocuments := by
  refine (Prog.preserves_selectForUpdate _ _).bind fun found => ?_
  refine (Prog.preserves_orFail _ _).bind fun wo => ?_
  refine (DocNumberer.nextNumber_preserves _ _ _).bind fun code => ?_
  refine (Prog.preserves_ask _).bind fun id => ?_
  exact (Prog.preserves_insert (by intro _; rfl)).bind fun _ => Prog.preserves_ret _

/-- The item that the header returns is the work order's own. -/
theorem createHeader_item {request : CreateReceiptRequest} {v w : Db} {item : ID}
    {response : CreateReceiptResponse}
    (h : (createHeader request).Runs v w (.ok (item, response))) :
    ∃ wo, v.workOrders.get? request.workOrderId = some wo ∧ item = wo.itemId := by
  simp only [createHeader, Prog.runs_bind_ok, Prog.runs_selectForUpdate, Prog.runs_orFail_ok,
    Prog.pure_eq, Prog.runs_ret] at h
  obtain ⟨_, found, ⟨rfl, hfound⟩, _, wo, ⟨rfl, hwo⟩, _, _, -, _, _, -, _, _, -, -, hitem⟩ := h
  refine ⟨wo, (Except.ok.inj hfound).symm.trans hwo, ?_⟩
  exact (Prod.mk.inj (Except.ok.inj hitem)).1

theorem recordHeader_preserves (ctx : Operator) (id : ID) :
    (recordHeader ctx id).Preserves Db.withoutDocuments := by
  refine (Prog.preserves_select _).bind fun row => ?_
  refine (Prog.preserves_orFail _ _).bind fun receipt => ?_
  exact (AuditService.record_preserves _ _ _ _ _ _).factor (by intro _; rfl)

variable (ar : Arith)

def execute (ctx : Operator) (request : CreateReceiptRequest) :
    Handler CreateReceiptResponse := do
  let (item, response) ← createHeader request
  InventoryLedger.receive ar (receiveCommand item response.id request)
  recordHeader ctx response.id
  pure response

end ProductionReceiptCreate

end Slab
