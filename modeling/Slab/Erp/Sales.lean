import Slab.Erp.Services
import Slab.Erp.Ledger

/-!
# Sales deliveries

`SalesDeliveryCreate.execute` is the handler of `POST /api/v1/sales-deliveries`.
-/

namespace Slab

open Txn

/-- `SET delivered_qty = $1, closed = ($1 >= quantity)`. -/
def SalesOrderLine.deliver (newDelivered : ℤ) (r : SalesOrderLine) : SalesOrderLine :=
  { r with deliveredQty := newDelivered, closed := decide (newDelivered ≥ r.quantity) }

theorem SalesOrderLine.deliver_id (newDelivered : ℤ) (r : SalesOrderLine) :
    (r.deliver newDelivered).id = r.id := rfl

namespace SalesDeliveryCreate

structure DeliveryLineInput where
  orderLineId : ID
  itemId : ID
  warehouseId : ID
  quantity : ℤ
  batchNumber : Option String
deriving DecidableEq

structure CreateDeliveryRequest where
  orderId : ID
  remark : Option String
  lines : List DeliveryLineInput
deriving DecidableEq

structure CreateDeliveryResponse where
  id : ID
  code : String
deriving DecidableEq

/-- `WHERE id = $1 AND order_id = $2`. -/
def orderLine (lineId orderId : ID) (db : Db) : Option SalesOrderLine :=
  (db.salesOrderLines.get? lineId).filter fun l => l.orderId = orderId

/-- The stored line of a delivery. -/
def deliveryLine (lineId deliveryId : ID) (line : DeliveryLineInput) : SalesDeliveryLine where
  id := lineId
  deliveryId := deliveryId
  orderLineId := line.orderLineId
  itemId := line.itemId
  warehouseId := line.warehouseId
  quantity := line.quantity
  batchNumber := line.batchNumber

/-- The stock movement of a delivery line. -/
def issueCommand (lineId : ID) (line : DeliveryLineInput) : LedgerCommand where
  itemId := line.itemId
  warehouseId := line.warehouseId
  quantity := line.quantity
  txType := .outbound
  referenceType := "sales_delivery"
  referenceId := lineId
  batchNumber := line.batchNumber

def insertLine (row : SalesDeliveryLine) : Handler Unit :=
  insertRow .salesDeliveryLines row.id (fun db => db.salesDeliveryLines.has row.id) fun db =>
    { db with salesDeliveryLines := db.salesDeliveryLines.insert row }

def updateOrderLine (orderLineId : ID) (newDelivered : ℤ) : Handler Unit :=
  Prog.update (fun db => lockRow .salesOrderLines orderLineId (db.salesOrderLines.has orderLineId))
    fun db => { db with
      salesOrderLines := db.salesOrderLines.modify orderLineId
        (SalesOrderLine.deliver newDelivered) (SalesOrderLine.deliver_id newDelivered) }

variable (ar : Arith)

/-- One round of `for line in &request.lines`. -/
def deliverLine (orderId deliveryId : ID) (line : DeliveryLineInput) : Handler Unit := do
  let lineId ← ask .newId
  let found ← Prog.selectForUpdate
    (fun db => lockRow .salesOrderLines line.orderLineId
      (orderLine line.orderLineId orderId db).isSome)
    (orderLine line.orderLineId orderId)
  let ol ← Prog.orFail found (.sales .lineNotFound)
  let newDelivered := ar.add ol.deliveredQty line.quantity
  Prog.ensure (!decide (newDelivered > ol.quantity)) (.sales .overDelivery)
  insertLine (deliveryLine lineId deliveryId line)
  updateOrderLine line.orderLineId newDelivered
  InventoryLedger.issue ar (issueCommand lineId line)

/-- The document line and the counter that a delivery line writes. -/
def writeLine (lineId deliveryId : ID) (line : DeliveryLineInput) (newDelivered : ℤ) (db : Db) :
    Db :=
  { db with
    salesDeliveryLines := db.salesDeliveryLines.insert (deliveryLine lineId deliveryId line)
    salesOrderLines := db.salesOrderLines.modify line.orderLineId
      (SalesOrderLine.deliver newDelivered) (SalesOrderLine.deliver_id newDelivered) }

/-- A line that goes through refers to a line of the order with enough left, and issues the
stock. -/
theorem deliverLine_runs_ok {orderId deliveryId : ID} {line : DeliveryLineInput} {v w : Db}
    (h : (deliverLine ar orderId deliveryId line).Runs v w (.ok ())) :
    ∃ lineId ol, v.salesOrderLines.get? line.orderLineId = some ol ∧ ol.orderId = orderId ∧
      ar.add ol.deliveredQty line.quantity ≤ ol.quantity ∧
      (InventoryLedger.issue ar (issueCommand lineId line)).Runs
        (writeLine lineId deliveryId line (ar.add ol.deliveredQty line.quantity) v) w (.ok ()) := by
  simp only [deliverLine, Prog.runs_bind_ok, ask, Prog.runs_ask, Prog.runs_selectForUpdate,
    Prog.runs_orFail_ok, Prog.runs_ensure_ok, insertLine, insertRow, Prog.runs_insert_ok,
    updateOrderLine, Prog.runs_update] at h
  obtain ⟨_, lineId, ⟨rfl, -⟩, _, found, ⟨rfl, hfound⟩, _, ol, ⟨rfl, hol⟩, _, _, ⟨rfl, hle⟩, _, _,
    ⟨-, rfl⟩, _, _, ⟨rfl, -⟩, hissue⟩ := h
  have hline := (Except.ok.inj hfound).symm.trans hol
  obtain ⟨hget, horder⟩ := Option.filter_eq_some_iff.mp hline
  exact ⟨lineId, ol, hget, by simpa using horder, by simpa using hle, hissue⟩

/-- The header: the approved order, the document and its audit row. -/
def createHeader (ctx : Operator) (request : CreateDeliveryRequest) :
    Handler CreateDeliveryResponse := do
  let found ← Prog.selectForUpdate
    (fun db => lockRow .salesOrders request.orderId (db.salesOrders.has request.orderId))
    fun db => db.salesOrders.get? request.orderId
  let order ← Prog.orFail found (.sales .notFound)
  Prog.ensure (order.status = SalesOrderStatus.approved.toI16) (.sales .orderNotApproved)
  let code ← DocNumberer.nextNumber "seq_sales_delivery" "DLV"
  let deliveryId ← ask .newId
  let deliveryDate ← ask .currentDate
  insertRow .salesDeliveries deliveryId (fun db => db.salesDeliveries.has deliveryId) fun db =>
    { db with
      salesDeliveries := db.salesDeliveries.insert {
        id := deliveryId, code := code, orderId := request.orderId
        customerId := order.customerId, deliveryDate := deliveryDate
        status := SalesDeliveryStatus.posted.toI16, remark := request.remark } }
  let row ← Prog.select fun db => db.salesDeliveries.get? deliveryId
  let delivery ← Prog.orFail row (.sql .rowNotFound)
  AuditService.recordCreate "sales_delivery" deliveryId ctx (.salesDelivery delivery)
  pure { id := deliveryId, code := code }

theorem createHeader_preserves (ctx : Operator) (request : CreateDeliveryRequest) :
    (createHeader ctx request).Preserves Db.withoutDocuments := by
  refine (Prog.preserves_selectForUpdate _ _).bind fun found => ?_
  refine (Prog.preserves_orFail _ _).bind fun order => ?_
  refine (Prog.preserves_ensure _ _).bind fun _ => ?_
  refine (DocNumberer.nextNumber_preserves _ _ _).bind fun code => ?_
  refine (Prog.preserves_ask _).bind fun deliveryId => ?_
  refine (Prog.preserves_ask _).bind fun deliveryDate => ?_
  refine (Prog.preserves_insert (by intro _; rfl)).bind fun _ => ?_
  refine (Prog.preserves_select _).bind fun row => ?_
  refine (Prog.preserves_orFail _ _).bind fun delivery => ?_
  refine ((AuditService.record_preserves _ _ _ _ _ _).factor (by intro _; rfl)).bind fun _ => ?_
  exact Prog.preserves_ret _

def execute (ctx : Operator) (request : CreateDeliveryRequest) :
    Handler CreateDeliveryResponse := do
  let response ← createHeader ctx request
  Prog.forEach request.lines (deliverLine ar request.orderId response.id)
  pure response

end SalesDeliveryCreate

end Slab
