import Slab.Erp.Services
import Slab.Erp.Ledger
import Slab.Erp.Costing

/-!
# Purchase receipts and returns

The handlers of `POST /api/v1/purchase-receipts` and of the creation, submission and approval
of purchase returns.
-/

namespace Slab

open Txn

/-- `SET received_qty = $1, closed = ($1 >= quantity)`. -/
def PurchaseOrderLine.receive (newReceived : ℤ) (r : PurchaseOrderLine) : PurchaseOrderLine :=
  { r with receivedQty := newReceived, closed := decide (newReceived ≥ r.quantity) }

theorem PurchaseOrderLine.receive_id (newReceived : ℤ) (r : PurchaseOrderLine) :
    (r.receive newReceived).id = r.id := rfl

/-- `SET returned_qty = returned_qty + $1`. -/
def PurchaseOrderLine.giveBack (quantity : ℤ) (r : PurchaseOrderLine) : PurchaseOrderLine :=
  { r with returnedQty := r.returnedQty + quantity }

theorem PurchaseOrderLine.giveBack_id (quantity : ℤ) (r : PurchaseOrderLine) :
    (r.giveBack quantity).id = r.id := rfl

/-- `SET status = $1`. -/
def PurchaseReturnRow.setStatus (status : ℤ) (r : PurchaseReturnRow) : PurchaseReturnRow :=
  { r with status := status }

theorem PurchaseReturnRow.setStatus_id (status : ℤ) (r : PurchaseReturnRow) :
    (r.setStatus status).id = r.id := rfl

/-- `SET status = $1, approved_at = NOW()`. -/
def PurchaseReturnRow.approve (status : ℤ) (now : Timestamp) (r : PurchaseReturnRow) :
    PurchaseReturnRow :=
  { r with status := status, approvedAt := some now }

theorem PurchaseReturnRow.approve_id (status : ℤ) (now : Timestamp) (r : PurchaseReturnRow) :
    (r.approve status now).id = r.id := rfl

/-! ## Receipts -/

namespace PurchaseReceiptCreate

structure CreateReceiptLine where
  orderLineId : ID
  itemId : ID
  warehouseId : ID
  quantity : ℤ
  batchNumber : Option String
  unitCost : ℤ
deriving DecidableEq

structure CreateReceiptRequest where
  orderId : ID
  receiptDate : Option Date
  remark : Option String
  lines : List CreateReceiptLine
deriving DecidableEq

structure CreateReceiptResponse where
  id : ID
  code : String
deriving DecidableEq

/-- `WHERE id = $1 AND order_id = $2`. -/
def orderLine (lineId orderId : ID) (db : Db) : Option PurchaseOrderLine :=
  (db.purchaseOrderLines.get? lineId).filter fun l => l.orderId = orderId

/-- The stored line of a receipt. -/
def receiptLine (lineId receiptId : ID) (line : CreateReceiptLine) : PurchaseReceiptLine where
  id := lineId
  receiptId := receiptId
  orderLineId := line.orderLineId
  itemId := line.itemId
  warehouseId := line.warehouseId
  quantity := line.quantity
  batchNumber := line.batchNumber
  unitCost := line.unitCost

/-- The stock movement of a receipt line. -/
def receiveCommand (lineId : ID) (line : CreateReceiptLine) : LedgerCommand where
  itemId := line.itemId
  warehouseId := line.warehouseId
  quantity := line.quantity
  txType := .inbound
  referenceType := "purchase_receipt"
  referenceId := lineId
  batchNumber := line.batchNumber

def insertLine (row : PurchaseReceiptLine) : Handler Unit :=
  insertRow .purchaseReceiptLines row.id (fun db => db.purchaseReceiptLines.has row.id) fun db =>
    { db with purchaseReceiptLines := db.purchaseReceiptLines.insert row }

def updateOrderLine (orderLineId : ID) (newReceived : ℤ) : Handler Unit :=
  Prog.update
    (fun db => lockRow .purchaseOrderLines orderLineId (db.purchaseOrderLines.has orderLineId))
    fun db => { db with
      purchaseOrderLines := db.purchaseOrderLines.modify orderLineId
        (PurchaseOrderLine.receive newReceived) (PurchaseOrderLine.receive_id newReceived) }

variable (ar : Arith)

/-- One round of `for line in &request.lines`. -/
def receiveLine (orderId receiptId : ID) (line : CreateReceiptLine) : Handler Unit := do
  let lineId ← ask .newId
  let found ← Prog.selectForUpdate
    (fun db => lockRow .purchaseOrderLines line.orderLineId
      (orderLine line.orderLineId orderId db).isSome)
    (orderLine line.orderLineId orderId)
  let ol ← Prog.orFail found (.purchase .lineNotFound)
  let newReceived := ar.add ol.receivedQty line.quantity
  Prog.ensure (!decide (newReceived > ol.quantity)) (.purchase .overReceipt)
  insertLine (receiptLine lineId receiptId line)
  updateOrderLine line.orderLineId newReceived
  InventoryLedger.receive ar (receiveCommand lineId line)
  let _ ← CostCalculator.recalcWeightedAverage ar line.itemId line.quantity line.unitCost
  pure ()

/-- The document line and the counter that a receipt line writes. -/
def writeLine (lineId receiptId : ID) (line : CreateReceiptLine) (newReceived : ℤ) (db : Db) :
    Db :=
  { db with
    purchaseReceiptLines := db.purchaseReceiptLines.insert (receiptLine lineId receiptId line)
    purchaseOrderLines := db.purchaseOrderLines.modify line.orderLineId
      (PurchaseOrderLine.receive newReceived) (PurchaseOrderLine.receive_id newReceived) }

/-- A line that goes through refers to a line of the order with enough left, receives the
stock, and then changes costs only. -/
theorem receiveLine_runs_ok {orderId receiptId : ID} {line : CreateReceiptLine} {v w : Db}
    (h : (receiveLine ar orderId receiptId line).Runs v w (.ok ())) :
    ∃ lineId ol u, v.purchaseOrderLines.get? line.orderLineId = some ol ∧ ol.orderId = orderId ∧
      ar.add ol.receivedQty line.quantity ≤ ol.quantity ∧
      v.purchaseReceiptLines.get? lineId = none ∧
      (InventoryLedger.receive ar (receiveCommand lineId line)).Runs
        (writeLine lineId receiptId line (ar.add ol.receivedQty line.quantity) v) u (.ok ()) ∧
      CostCalculator.withoutCosts w = CostCalculator.withoutCosts u := by
  simp only [receiveLine, Prog.runs_bind_ok, ask, Prog.runs_ask, Prog.runs_selectForUpdate,
    Prog.runs_orFail_ok, Prog.runs_ensure_ok, insertLine, insertRow, Prog.runs_insert_ok,
    updateOrderLine, Prog.runs_update, Prog.pure_eq, Prog.runs_ret] at h
  obtain ⟨_, lineId, ⟨rfl, -⟩, _, found, ⟨rfl, hfound⟩, _, ol, ⟨rfl, hol⟩, _, _, ⟨rfl, hle⟩, _, _,
    ⟨hfresh, rfl⟩, _, _, ⟨rfl, -⟩, u, _, hreceive, w', avg, hcost, rfl, -⟩ := h
  have hline := (Except.ok.inj hfound).symm.trans hol
  obtain ⟨hget, horder⟩ := Option.filter_eq_some_iff.mp hline
  exact ⟨lineId, ol, u, hget, by simpa using horder, by simpa using hle,
    Table.has_eq_false.mp (unique_eq_none.mp hfresh), hreceive,
    (CostCalculator.recalcWeightedAverage_preserves ar _ _ _).runs hcost⟩

/-- `receipt_date.unwrap_or_else(today_naive)`. -/
def receiptDateOrToday : Option Date → Handler Date
  | some d => pure d
  | none => ask .today

theorem receiptDateOrToday_preserves {τ : Type} (f : Db → τ) (date : Option Date) :
    (receiptDateOrToday date).Preserves f := by
  cases date with
  | some d => exact Prog.preserves_ret _
  | none => exact Prog.preserves_ask _

/-- The header: the approved order and the document. -/
def createHeader (request : CreateReceiptRequest) : Handler CreateReceiptResponse := do
  let found ← Prog.selectForUpdate
    (fun db => lockRow .purchaseOrders request.orderId (db.purchaseOrders.has request.orderId))
    fun db => db.purchaseOrders.get? request.orderId
  let order ← Prog.orFail found (.purchase .notFound)
  Prog.ensure (order.status = PurchaseOrderStatus.approved.toI16) (.purchase .orderNotApproved)
  let code ← DocNumberer.nextNumber "seq_purchase_receipt" "RCV"
  let receiptDate ← receiptDateOrToday request.receiptDate
  let receiptId ← ask .newId
  insertRow .purchaseReceipts receiptId (fun db => db.purchaseReceipts.has receiptId) fun db =>
    { db with
      purchaseReceipts := db.purchaseReceipts.insert {
        id := receiptId, code := code, orderId := request.orderId
        supplierId := order.supplierId, receiptDate := receiptDate
        status := PurchaseReceiptStatus.posted.toI16, remark := request.remark } }
  pure { id := receiptId, code := code }

/-- The audit row, from the document read back. -/
def recordHeader (ctx : Operator) (receiptId : ID) : Handler Unit := do
  let row ← Prog.select fun db => db.purchaseReceipts.get? receiptId
  let receipt ← Prog.orFail row (.sql .rowNotFound)
  AuditService.recordCreate "purchase_receipt" receiptId ctx (.purchaseReceipt receipt)

theorem createHeader_preserves (request : CreateReceiptRequest) :
    (createHeader request).Preserves Db.withoutDocuments := by
  refine (Prog.preserves_selectForUpdate _ _).bind fun found => ?_
  refine (Prog.preserves_orFail _ _).bind fun order => ?_
  refine (Prog.preserves_ensure _ _).bind fun _ => ?_
  refine (DocNumberer.nextNumber_preserves _ _ _).bind fun code => ?_
  refine (receiptDateOrToday_preserves _ _).bind fun receiptDate => ?_
  refine (Prog.preserves_ask _).bind fun receiptId => ?_
  exact (Prog.preserves_insert (by intro _; rfl)).bind fun _ => Prog.preserves_ret _

/-- The header adds one document. -/
theorem createHeader_runs_ok {request : CreateReceiptRequest} {response : CreateReceiptResponse}
    {v w : Db} (h : (createHeader request).Runs v w (.ok response)) :
    ∃ receipt, w = { v with purchaseReceipts := v.purchaseReceipts.insert receipt } := by
  simp only [createHeader, Prog.runs_bind_ok, Prog.runs_selectForUpdate, Prog.runs_orFail_ok,
    Prog.runs_ensure_ok, ask, Prog.runs_ask, insertRow, Prog.runs_insert_ok, Prog.pure_eq,
    Prog.runs_ret] at h
  obtain ⟨_, _, ⟨rfl, -⟩, _, order, ⟨rfl, -⟩, v, _, ⟨rfl, -⟩, u, code, hcode, _, date, hdate, u',
    id, ⟨rfl, -⟩, _, _, ⟨-, rfl⟩, rfl, -⟩ := h
  obtain rfl : u = v := (DocNumberer.nextNumber_preserves (fun db => db) _ _).runs hcode
  obtain rfl : u' = u := (receiptDateOrToday_preserves (fun db => db) _).runs hdate
  exact ⟨_, rfl⟩

theorem recordHeader_preserves (ctx : Operator) (receiptId : ID) :
    (recordHeader ctx receiptId).Preserves AuditService.withoutAudit := by
  refine (Prog.preserves_select _).bind fun row => ?_
  refine (Prog.preserves_orFail _ _).bind fun receipt => ?_
  exact AuditService.record_preserves _ _ _ _ _ _

def execute (ctx : Operator) (request : CreateReceiptRequest) :
    Handler CreateReceiptResponse := do
  let response ← createHeader request
  Prog.forEach request.lines (receiveLine ar request.orderId response.id)
  recordHeader ctx response.id
  pure response

end PurchaseReceiptCreate

/-! ## Returns -/

namespace PurchaseReturnCreate

structure CreateReturnLine where
  receiptLineId : ID
  itemId : ID
  quantity : ℤ
  reason : Option String
deriving DecidableEq

structure CreateReturnRequest where
  orderId : ID
  reason : Option String
  lines : List CreateReturnLine
deriving DecidableEq

structure CreateReturnResponse where
  id : ID
  code : String
deriving DecidableEq

/-- The stored line of a return. -/
def returnLine (lineId returnId : ID) (line : CreateReturnLine) : PurchaseReturnLine where
  id := lineId
  returnId := returnId
  receiptLineId := line.receiptLineId
  itemId := line.itemId
  quantity := line.quantity
  reason := line.reason

/-- One round of the line loop; the reference to the receipt line is a foreign key. -/
def insertLine (returnId : ID) (line : CreateReturnLine) : Handler Unit := do
  let lineId ← ask .newId
  Prog.insert [.row .purchaseReturnLines lineId]
    (fun db => (unique (db.purchaseReturnLines.has lineId)).or
      (references (db.purchaseReceiptLines.has line.receiptLineId)))
    fun db => { db with
      purchaseReturnLines := db.purchaseReturnLines.insert (returnLine lineId returnId line) }

/-- A line that goes through refers to a receipt line, and is stored. -/
theorem insertLine_runs_ok {returnId : ID} {line : CreateReturnLine} {v w : Db}
    (h : (insertLine returnId line).Runs v w (.ok ())) :
    ∃ lineId, v.purchaseReturnLines.get? lineId = none ∧
      v.purchaseReceiptLines.has line.receiptLineId = true ∧
      w = { v with
        purchaseReturnLines :=
          v.purchaseReturnLines.insert (returnLine lineId returnId line) } := by
  simp only [insertLine, Prog.runs_bind_ok, ask, Prog.runs_ask, Prog.runs_insert_ok] at h
  obtain ⟨_, lineId, ⟨rfl, -⟩, hok, rfl⟩ := h
  obtain ⟨hfresh, href⟩ := Option.or_eq_none_iff.mp hok
  exact ⟨lineId, Table.has_eq_false.mp (unique_eq_none.mp hfresh), references_eq_none.mp href, rfl⟩

/-- The document; the order is read without a lock and its status is not looked at. -/
def createHeader (request : CreateReturnRequest) : Handler CreateReturnResponse := do
  let found ← Prog.select fun db => db.purchaseOrders.get? request.orderId
  let order ← Prog.orFail found (.purchase .notFound)
  let code ← DocNumberer.nextNumber "seq_purchase_return" "RET"
  let returnId ← ask .newId
  let returnDate ← ask .currentDate
  insertRow .purchaseReturns returnId (fun db => db.purchaseReturns.has returnId) fun db =>
    { db with
      purchaseReturns := db.purchaseReturns.insert {
        id := returnId, code := code, orderId := request.orderId, supplierId := order.supplierId
        returnDate := returnDate, status := 0, reason := request.reason, remark := none
        approvedAt := none } }
  pure { id := returnId, code := code }

/-- The audit row, from the document read back. -/
def recordHeader (ctx : Operator) (returnId : ID) : Handler Unit := do
  let row ← Prog.select fun db => db.purchaseReturns.get? returnId
  let ret ← Prog.orFail row (.sql .rowNotFound)
  AuditService.recordCreate "purchase_return" returnId ctx
    (.purchaseReturn ret.toPurchaseReturn)

theorem createHeader_preserves (request : CreateReturnRequest) :
    (createHeader request).Preserves Db.withoutDocuments := by
  refine (Prog.preserves_select _).bind fun found => ?_
  refine (Prog.preserves_orFail _ _).bind fun order => ?_
  refine (DocNumberer.nextNumber_preserves _ _ _).bind fun code => ?_
  refine (Prog.preserves_ask _).bind fun returnId => ?_
  refine (Prog.preserves_ask _).bind fun returnDate => ?_
  exact (Prog.preserves_insert (by intro _; rfl)).bind fun _ => Prog.preserves_ret _

/-- The header adds one document, a draft. -/
theorem createHeader_runs_ok {request : CreateReturnRequest} {response : CreateReturnResponse}
    {v w : Db} (h : (createHeader request).Runs v w (.ok response)) :
    ∃ ret : PurchaseReturnRow, ret.id = response.id ∧ ret.status = 0 ∧
      v.purchaseReturns.get? ret.id = none ∧
      w = { v with purchaseReturns := v.purchaseReturns.insert ret } := by
  simp only [createHeader, Prog.runs_bind_ok, Prog.runs_select, Prog.runs_orFail_ok, ask,
    Prog.runs_ask, insertRow, Prog.runs_insert_ok, Prog.pure_eq, Prog.runs_ret] at h
  obtain ⟨_, _, ⟨rfl, -⟩, v, order, ⟨rfl, -⟩, _, code, hcode, _, id, ⟨rfl, -⟩, u, date, ⟨rfl, -⟩,
    _, _, ⟨hfresh, rfl⟩, rfl, hresponse⟩ := h
  obtain rfl : u = v := (DocNumberer.nextNumber_preserves (fun db => db) _ _).runs hcode
  obtain rfl := Except.ok.inj hresponse
  exact ⟨_, rfl, rfl, Table.has_eq_false.mp (unique_eq_none.mp hfresh), rfl⟩

theorem recordHeader_preserves (ctx : Operator) (returnId : ID) :
    (recordHeader ctx returnId).Preserves AuditService.withoutAudit := by
  refine (Prog.preserves_select _).bind fun row => ?_
  refine (Prog.preserves_orFail _ _).bind fun ret => ?_
  exact AuditService.record_preserves _ _ _ _ _ _

def execute (ctx : Operator) (request : CreateReturnRequest) : Handler CreateReturnResponse := do
  let response ← createHeader request
  Prog.forEach request.lines (insertLine response.id)
  recordHeader ctx response.id
  pure response

end PurchaseReturnCreate

namespace PurchaseReturnRepository

def lockReturn (id : ID) : Handler PurchaseReturnRow := do
  let found ← Prog.selectForUpdate
    (fun db => lockRow .purchaseReturns id (db.purchaseReturns.has id))
    fun db => db.purchaseReturns.get? id
  Prog.orFail found (.purchase .notFound)

def lockStatus (id : ID) : Handler ℤ := do
  let row ← lockReturn id
  pure row.status

def submit (id : ID) : Handler Unit := do
  let status ← lockStatus id
  let newStatus ← Prog.ofExcept (retFlow.submitStatus status)
  Prog.update (fun db => lockRow .purchaseReturns id (db.purchaseReturns.has id)) fun db =>
    { db with
      purchaseReturns := db.purchaseReturns.modify id (PurchaseReturnRow.setStatus newStatus)
        (PurchaseReturnRow.setStatus_id newStatus) }

def approve (id : ID) : Handler ℤ := do
  let status ← lockStatus id
  let newStatus ← Prog.ofExcept (retFlow.approveStatus status)
  let now ← ask .now
  Prog.update (fun db => lockRow .purchaseReturns id (db.purchaseReturns.has id)) fun db =>
    { db with
      purchaseReturns := db.purchaseReturns.modify id (PurchaseReturnRow.approve newStatus now)
        (PurchaseReturnRow.approve_id newStatus now) }
  pure newStatus

end PurchaseReturnRepository

namespace PurchaseReturnApprove

def submitExecute (id : ID) : Handler Unit := PurchaseReturnRepository.submit id

/-- A submission turns a draft into a submitted return. -/
theorem submitExecute_runs_ok {id : ID} {v w : Db} (h : (submitExecute id).Runs v w (.ok ())) :
    w = { v with
      purchaseReturns := v.purchaseReturns.modify id (PurchaseReturnRow.setStatus 1)
        (PurchaseReturnRow.setStatus_id 1) } := by
  simp only [submitExecute, PurchaseReturnRepository.submit, PurchaseReturnRepository.lockStatus,
    PurchaseReturnRepository.lockReturn, Prog.runs_bind_ok, Prog.runs_selectForUpdate,
    Prog.runs_orFail_ok, Prog.runs_ofExcept, Prog.runs_update, Prog.pure_eq, Prog.runs_ret] at h
  obtain ⟨_, status, ⟨_, row, ⟨v, _, ⟨rfl, -⟩, rfl, -⟩, rfl, -⟩, _, new, ⟨rfl, hnew⟩, rfl, -⟩ := h
  obtain ⟨-, rfl⟩ := retFlow_submitStatus.mp hnew.symm
  rfl

theorem submitExecute_preserves (id : ID) :
    (submitExecute id).Preserves Db.withoutDocuments := by
  have hlock : (PurchaseReturnRepository.lockReturn id).Preserves Db.withoutDocuments :=
    (Prog.preserves_selectForUpdate _ _).bind fun _ => Prog.preserves_orFail _ _
  refine (hlock.bind fun _ => Prog.preserves_ret _).bind fun status => ?_
  refine (Prog.preserves_ofExcept _).bind fun newStatus => ?_
  exact Prog.preserves_update (by intro _; rfl)

/-- A return line joined with the receipt line it refers to. -/
structure JoinedLine where
  id : ID
  itemId : ID
  quantity : ℤ
  warehouseId : ID
  orderLineId : ID
deriving DecidableEq

/-- `purchase_return_lines JOIN purchase_receipt_lines ON … WHERE return_id = $1`. -/
def joinedLines (returnId : ID) (db : Db) : List JoinedLine :=
  (db.purchaseReturnLines.rows.filter fun l => l.returnId = returnId).filterMap fun l =>
    (db.purchaseReceiptLines.get? l.receiptLineId).map fun rl =>
      { id := l.id, itemId := l.itemId, quantity := l.quantity, warehouseId := rl.warehouseId
        orderLineId := rl.orderLineId }

/-- The stock movement of a return line. -/
def issueCommand (line : JoinedLine) : LedgerCommand where
  itemId := line.itemId
  warehouseId := line.warehouseId
  quantity := line.quantity
  txType := .purchaseReturn
  referenceType := "purchase_return"
  referenceId := line.id
  batchNumber := none

variable (ar : Arith)

/-- The refusal of a sum that does not fit its BIGINT column. -/
def returnedOverflow (orderLineId : ID) (quantity : ℤ) (db : Db) : Option AppError :=
  match db.purchaseOrderLines.get? orderLineId with
  | some l => if ar.Fits (l.returnedQty + quantity) then none else some (.sql .bigintOutOfRange)
  | none => none

def addReturned (orderLineId : ID) (quantity : ℤ) : Handler Unit :=
  Prog.writeIf
    (fun db => lockRow .purchaseOrderLines orderLineId (db.purchaseOrderLines.has orderLineId))
    (fun db => lockRow .purchaseOrderLines orderLineId (db.purchaseOrderLines.has orderLineId))
    (returnedOverflow ar orderLineId quantity)
    fun db => { db with
      purchaseOrderLines := db.purchaseOrderLines.modify orderLineId
        (PurchaseOrderLine.giveBack quantity) (PurchaseOrderLine.giveBack_id quantity) }

/-- One round of `for line in &lines`. -/
def returnLine (line : JoinedLine) : Handler Unit := do
  InventoryLedger.forceIssue ar (issueCommand line)
  addReturned ar line.orderLineId line.quantity

/-- A line that goes through has issued its stock and raised the counter of its order line. -/
theorem returnLine_runs_ok {line : JoinedLine} {v w : Db}
    (h : (returnLine ar line).Runs v w (.ok ())) :
    ∃ u, (InventoryLedger.forceIssue ar (issueCommand line)).Runs v u (.ok ()) ∧
      returnedOverflow ar line.orderLineId line.quantity u = none ∧
      w = { u with
        purchaseOrderLines := u.purchaseOrderLines.modify line.orderLineId
          (PurchaseOrderLine.giveBack line.quantity)
          (PurchaseOrderLine.giveBack_id line.quantity) } := by
  simp only [returnLine, Prog.runs_bind_ok, addReturned, Prog.runs_writeIf_ok] at h
  obtain ⟨u, _, hissue, hfits, rfl⟩ := h
  exact ⟨u, hissue, hfits, rfl⟩

/-- The state machine and the audit row. -/
def approveHeader (ctx : Operator) (id : ID) : Handler Unit := do
  let before ← PurchaseReturnRepository.lockReturn id
  let _ ← PurchaseReturnRepository.approve id
  let row ← Prog.select fun db => db.purchaseReturns.get? id
  let after ← Prog.orFail row (.sql .rowNotFound)
  AuditService.recordUpdated "purchase_return" id ctx
    (.purchaseReturn before.toPurchaseReturn) (.purchaseReturn after.toPurchaseReturn)

/-- An approval turns a submitted return into an approved one. -/
theorem approveHeader_runs_ok {ctx : Operator} {id : ID} {v w : Db}
    (h : (approveHeader ctx id).Runs v w (.ok ())) :
    ∃ now logs, w = { v with
      purchaseReturns := v.purchaseReturns.modify id (PurchaseReturnRow.approve 3 now)
        (PurchaseReturnRow.approve_id 3 now)
      auditLogs := logs } := by
  simp only [approveHeader, PurchaseReturnRepository.approve, PurchaseReturnRepository.lockStatus,
    PurchaseReturnRepository.lockReturn, Prog.runs_bind_ok, Prog.runs_selectForUpdate,
    Prog.runs_orFail_ok, Prog.runs_ofExcept, Prog.runs_update, ask, Prog.runs_ask,
    Prog.runs_select, Prog.pure_eq, Prog.runs_ret] at h
  obtain ⟨_, before, ⟨_, _, ⟨rfl, -⟩, rfl, -⟩, _, _, ⟨_, status, ⟨_, row, ⟨v, _, ⟨rfl, -⟩, rfl, -⟩,
    rfl, -⟩, _, new, ⟨rfl, hnew⟩, _, now, ⟨rfl, -⟩, _, _, ⟨rfl, -⟩, rfl, -⟩, _, _, ⟨rfl, -⟩, _,
    after, ⟨rfl, -⟩, hrecord⟩ := h
  obtain ⟨-, rfl⟩ := retFlow_approveStatus.mp hnew.symm
  obtain ⟨-, audit, rfl⟩ := AuditService.record_runs hrecord
  exact ⟨now, _, rfl⟩

theorem approveHeader_preserves (ctx : Operator) (id : ID) :
    (approveHeader ctx id).Preserves Db.withoutDocuments := by
  have hlock : (PurchaseReturnRepository.lockReturn id).Preserves Db.withoutDocuments :=
    (Prog.preserves_selectForUpdate _ _).bind fun _ => Prog.preserves_orFail _ _
  have happrove : (PurchaseReturnRepository.approve id).Preserves Db.withoutDocuments := by
    refine (hlock.bind fun _ => Prog.preserves_ret _).bind fun status => ?_
    refine (Prog.preserves_ofExcept _).bind fun newStatus => ?_
    refine (Prog.preserves_ask _).bind fun now => ?_
    exact (Prog.preserves_update (by intro _; rfl)).bind fun _ => Prog.preserves_ret _
  refine hlock.bind fun before => happrove.bind fun _ => ?_
  refine (Prog.preserves_select _).bind fun row => ?_
  refine (Prog.preserves_orFail _ _).bind fun after => ?_
  exact (AuditService.record_preserves _ _ _ _ _ _).factor (by intro _; rfl)

def approveExecute (ctx : Operator) (id : ID) : Handler Unit := do
  approveHeader ctx id
  let lines ← Prog.select (joinedLines id)
  Prog.forEach lines (returnLine ar)

end PurchaseReturnApprove

end Slab
