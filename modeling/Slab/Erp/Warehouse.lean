import Slab.Erp.Services
import Slab.Erp.Ledger

/-!
# Stock transfers

The handlers of `POST /api/v1/stock-transfers`, `…/{id}/submit` and `…/{id}/approve`.
-/

namespace Slab

open Txn

/-- `SET status = $1`. -/
def StockTransfer.setStatus (status : ℤ) (r : StockTransfer) : StockTransfer :=
  { r with status := status }

theorem StockTransfer.setStatus_id (status : ℤ) (r : StockTransfer) :
    (r.setStatus status).id = r.id := rfl

/-- `SET status = $1, approved_at = NOW()`. -/
def StockTransfer.approve (status : ℤ) (now : Timestamp) (r : StockTransfer) : StockTransfer :=
  { r with status := status, approvedAt := some now }

theorem StockTransfer.approve_id (status : ℤ) (now : Timestamp) (r : StockTransfer) :
    (r.approve status now).id = r.id := rfl

namespace StockTransferRepository

/-- The row, locked. -/
def lockTransfer (id : ID) : Handler StockTransfer := do
  let found ← Prog.selectForUpdate
    (fun db => lockRow .stockTransfers id (db.stockTransfers.has id))
    fun db => db.stockTransfers.get? id
  Prog.orFail found (.warehouse .notFound)

def lockStatus (id : ID) : Handler ℤ := do
  let row ← lockTransfer id
  pure row.status

def submit (id : ID) : Handler Unit := do
  let status ← lockStatus id
  let newStatus ← Prog.ofExcept (trFlow.submitStatus status)
  Prog.update (fun db => lockRow .stockTransfers id (db.stockTransfers.has id)) fun db =>
    { db with
      stockTransfers := db.stockTransfers.modify id (StockTransfer.setStatus newStatus)
        (StockTransfer.setStatus_id newStatus) }

/-- The new status is written; the warehouses of the locked row are returned. -/
def approve (id : ID) : Handler (ID × ID) := do
  let row ← lockTransfer id
  let newStatus ← Prog.ofExcept (trFlow.approveStatus row.status)
  let now ← ask .now
  Prog.update (fun db => lockRow .stockTransfers id (db.stockTransfers.has id)) fun db =>
    { db with
      stockTransfers := db.stockTransfers.modify id (StockTransfer.approve newStatus now)
        (StockTransfer.approve_id newStatus now) }
  pure (row.fromWarehouseId, row.toWarehouseId)

end StockTransferRepository

namespace StockTransferApprove

theorem lockTransfer_runs {id : ID} {t : StockTransfer} {v w : Db} :
    (StockTransferRepository.lockTransfer id).Runs v w (.ok t) ↔
      w = v ∧ v.stockTransfers.get? id = some t := by
  simp only [StockTransferRepository.lockTransfer, Prog.runs_bind_ok, Prog.runs_selectForUpdate,
    Prog.runs_orFail_ok]
  constructor
  · rintro ⟨u, a, ⟨rfl, ha⟩, rfl, rfl⟩
    exact ⟨rfl, (Except.ok.inj ha).symm⟩
  · rintro ⟨rfl, ht⟩
    exact ⟨_, _, ⟨rfl, rfl⟩, rfl, ht⟩

/-- An approval touches the transfer's own row only, and only if it was submitted. -/
theorem approve_runs {id : ID} {ends : ID × ID} {v w : Db}
    (h : (StockTransferRepository.approve id).Runs v w (.ok ends)) :
    ∃ t, v.stockTransfers.get? id = some t ∧ t.status = 1 ∧
      ends = (t.fromWarehouseId, t.toWarehouseId) ∧
      ∃ ts, w = { v with stockTransfers := ts } := by
  simp only [StockTransferRepository.approve, Prog.runs_bind_ok, lockTransfer_runs,
    Prog.runs_ofExcept, ask, Prog.runs_ask, Prog.runs_update, Prog.pure_eq, Prog.runs_ret] at h
  obtain ⟨_, t, ⟨rfl, ht⟩, _, new, ⟨rfl, hnew⟩, _, now, ⟨rfl, -⟩, _, _, ⟨rfl, -⟩, rfl, hends⟩ := h
  exact ⟨t, ht, (trFlow_approveStatus.mp hnew.symm).1, Except.ok.inj hends, _, rfl⟩

/-- `WHERE transfer_id = $1 ORDER BY id`. -/
def items (transferId : ID) (db : Db) : List StockTransferItem :=
  (db.stockTransferItems.rows.filter fun r => r.transferId = transferId).insertionSort
    fun a b => a.id ≤ b.id

variable (ar : Arith)

/-- One round of `for item in &items`. -/
def transferItem (transferId fromWarehouse toWarehouse : ID) (item : StockTransferItem) :
    Handler Unit :=
  InventoryLedger.transfer ar item.itemId fromWarehouse toWarehouse item.quantity transferId none

/-- The audit row, with the transfer read back. -/
def recordApproval (ctx : Operator) (id : ID) (before : StockTransfer) : Handler Unit := do
  let row ← Prog.select fun db => db.stockTransfers.get? id
  let after ← Prog.orFail row (.warehouse .notFound)
  AuditService.recordUpdated "stock_transfer" id ctx (.stockTransfer before)
    (.stockTransfer after)

theorem approve_preserves (id : ID) :
    (StockTransferRepository.approve id).Preserves Db.withoutDocuments := by
  refine ((Prog.preserves_selectForUpdate _ _).bind fun _ => Prog.preserves_orFail _ _).bind
    fun row => ?_
  refine (Prog.preserves_ofExcept _).bind fun newStatus => ?_
  refine (Prog.preserves_ask _).bind fun now => ?_
  exact (Prog.preserves_update (by intro _; rfl)).bind fun _ => Prog.preserves_ret _

theorem recordApproval_preserves (ctx : Operator) (id : ID) (before : StockTransfer) :
    (recordApproval ctx id before).Preserves Db.withoutDocuments := by
  refine (Prog.preserves_select _).bind fun row => ?_
  refine (Prog.preserves_orFail _ _).bind fun after => ?_
  exact (AuditService.record_preserves _ _ _ _ _ _).factor (by intro _; rfl)

def execute (ctx : Operator) (id : ID) : Handler Unit := do
  let before ← StockTransferRepository.lockTransfer id
  let (fromWarehouse, toWarehouse) ← StockTransferRepository.approve id
  let lines ← Prog.select (items id)
  Prog.forEach lines (transferItem ar id fromWarehouse toWarehouse)
  recordApproval ctx id before

end StockTransferApprove

namespace StockTransferSubmit

def execute (ctx : Operator) (id : ID) : Handler Unit := do
  let before ← StockTransferRepository.lockTransfer id
  StockTransferRepository.submit id
  StockTransferApprove.recordApproval ctx id before

end StockTransferSubmit

namespace StockTransferCreate

structure TransferItemInput where
  itemId : ID
  quantity : ℤ
deriving DecidableEq

/-- The batch numbers of the items are not kept. -/
structure CreateTransferRequest where
  fromWarehouseId : ID
  toWarehouseId : ID
  transferDate : Option Date
  remark : Option String
  items : List TransferItemInput
deriving DecidableEq

structure CreateTransferResponse where
  id : ID
  code : String
deriving DecidableEq

/-- `transfer_date.unwrap_or_else(|| Utc::now().date_naive())`. -/
def transferDateOrToday : Option Date → Handler Date
  | some d => pure d
  | none => ask .utcDate

/-- The stored row, a draft. -/
def transferRow (id : ID) (code : String) (transferDate : Date) (request : CreateTransferRequest) :
    StockTransfer where
  id := id
  code := code
  fromWarehouseId := request.fromWarehouseId
  toWarehouseId := request.toWarehouseId
  status := StockTransferStatus.draft.toI16
  transferDate := transferDate
  remark := request.remark
  approvedAt := none

def transferItemRow (lineId transferId : ID) (item : TransferItemInput) : StockTransferItem where
  id := lineId
  transferId := transferId
  itemId := item.itemId
  quantity := item.quantity

/-- One round of `for item in &request.items`. -/
def insertItem (transferId : ID) (item : TransferItemInput) : Handler Unit := do
  let lineId ← ask .newId
  insertRow .stockTransferItems lineId (fun db => db.stockTransferItems.has lineId) fun db =>
    { db with
      stockTransferItems := db.stockTransferItems.insert (transferItemRow lineId transferId item) }

/-- The audit row, from the transfer read back. -/
def recordTransfer (ctx : Operator) (id : ID) : Handler Unit := do
  let row ← Prog.select fun db => db.stockTransfers.get? id
  let after ← Prog.orFail row (.warehouse .notFound)
  AuditService.recordCreate "stock_transfer" id ctx (.stockTransfer after)

def execute (ctx : Operator) (request : CreateTransferRequest) :
    Handler CreateTransferResponse := do
  let code ← DocNumberer.nextNumber "seq_stock_transfer" "TRF"
  let id ← ask .newId
  let transferDate ← transferDateOrToday request.transferDate
  insertRow .stockTransfers id (fun db => db.stockTransfers.has id) fun db =>
    { db with
      stockTransfers := db.stockTransfers.insert (transferRow id code transferDate request) }
  Prog.forEach request.items (insertItem id)
  recordTransfer ctx id
  pure { id := id, code := code }

end StockTransferCreate

end Slab
