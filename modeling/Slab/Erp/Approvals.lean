import Slab.Txn.Serial
import Slab.Erp.Purchase
import Slab.Erp.Warehouse
import Slab.Erp.InventoryChecks

/-!
# Approvals, once

Stock transfers, inventory checks and purchase returns are submitted and then approved, and the
approval makes their stock movements. Any number of such requests may work on one document at
once: each begins with the lock of its row.

## Main definitions

- `DocumentKind`, `DocumentKind.status?`, `DocumentKind.effects` — the documents, their status and
  the loop of ledger calls of their approval
- `ApprovalRequest.run` — the requests on one document
- `DocumentKind.Reached` — how far a document has got

## Main results

- `ApprovalRequest.submit_runs`, `ApprovalRequest.approve_runs` — what a request does alone
- `approved_once` — the effects are applied once if the document got approved, and else not at all
-/

namespace Slab

open Txn

/-! ## Documents -/

inductive DocumentKind where
  | transfer | check | purchaseReturn
deriving DecidableEq

namespace DocumentKind

def table : DocumentKind → TableName
  | transfer => .stockTransfers
  | check => .inventoryChecks
  | purchaseReturn => .purchaseReturns

/-- The row of the document. -/
def key (kind : DocumentKind) (id : ID) : Key := .row kind.table id

def flow : DocumentKind → StateTransitions
  | transfer => trFlow
  | check => chFlow
  | purchaseReturn => retFlow

def status? : DocumentKind → ID → Db → Option ℤ
  | transfer, id, db => (db.stockTransfers.get? id).map StockTransfer.status
  | check, id, db => (db.inventoryChecks.get? id).map InventoryCheck.status
  | purchaseReturn, id, db => (db.purchaseReturns.get? id).map fun r => r.status

/-- The loop of ledger calls that the approval of the document is to make. -/
def effects (ar : Arith) : DocumentKind → ID → Db → Handler Unit
  | transfer, id, db => match db.stockTransfers.get? id with
    | some t => Prog.forEach (StockTransferApprove.items id db)
        (StockTransferApprove.transferItem ar id t.fromWarehouseId t.toWarehouseId)
    | none => pure ()
  | check, id, db => match db.inventoryChecks.get? id with
    | some r => Prog.forEach (InventoryCheckApprove.items id db)
        (InventoryCheckApprove.adjustItem ar id r.warehouseId)
    | none => pure ()
  | purchaseReturn, id, db =>
    Prog.forEach (PurchaseReturnApprove.joinedLines id db) (PurchaseReturnApprove.returnLine ar)

end DocumentKind

/-- What the effects of a document can change: the stock, its journal and the counters of the
purchase order lines. -/
def Db.books (db : Db) :
    Table Inventory.key × List InventoryTransaction × Table PurchaseOrderLine.id :=
  (db.inventories, db.inventoryTransactions, db.purchaseOrderLines)

/-- The books of `w` are those of `v` after the effects of the document, made once. -/
def DocumentKind.Applied (ar : Arith) (kind : DocumentKind) (id : ID) (v w : Db) : Prop :=
  ∃ u u', u.books = v.books ∧ (kind.effects ar id v).Runs u u' (.ok ()) ∧ w.books = u'.books

/-! ## Requests -/

inductive ApprovalRequest where
  | submit (ctx : Operator)
  | approve (ctx : Operator)

/-- The transaction of a request on the document, its response left out. -/
def ApprovalRequest.run (ar : Arith) (kind : DocumentKind) (id : ID) :
    ApprovalRequest → Handler Unit
  | submit ctx => match kind with
    | .transfer => StockTransferSubmit.execute ctx id
    | .check => do
      let _ ← InventoryCheckSubmit.execute ctx id
      pure ()
    | .purchaseReturn => PurchaseReturnApprove.submitExecute id
  | approve ctx => match kind with
    | .transfer => StockTransferApprove.execute ar ctx id
    | .check => do
      let _ ← InventoryCheckApprove.execute ar ctx id
      pure ()
    | .purchaseReturn => PurchaseReturnApprove.approveExecute ar ctx id

/-! ## The lock comes first -/

namespace InventoryLedger

theorem readQty_waits (item warehouse : ID) : (readQty item warehouse).Waits :=
  (Prog.waits_selectForUpdate _ _).bind fun _ => Prog.waits_ret _

theorem upsertAndLog_waits (cmd : LedgerCommand) (after before : ℤ) :
    (upsertAndLog cmd after before).Waits := by
  refine (Prog.waits_ask _).bind fun invId => ?_
  refine (Prog.waits_upsert _ _ _).bind fun _ => ?_
  exact (Prog.waits_ask _).bind fun txId => Prog.waits_insert _ _ _

variable (ar : Arith)

theorem receive_waits (cmd : LedgerCommand) : (receive ar cmd).Waits :=
  (readQty_waits _ _).bind fun _ => upsertAndLog_waits _ _ _

theorem forceIssue_waits (cmd : LedgerCommand) : (forceIssue ar cmd).Waits :=
  (readQty_waits _ _).bind fun _ => upsertAndLog_waits _ _ _

theorem issue_waits (cmd : LedgerCommand) : (issue ar cmd).Waits :=
  (readQty_waits _ _).bind fun _ => (Prog.waits_ensure _ _).bind fun _ => upsertAndLog_waits _ _ _

theorem transfer_waits (item fromWarehouse toWarehouse : ID) (quantity : ℤ) (referenceId : ID)
    (batch : Option String) :
    (transfer ar item fromWarehouse toWarehouse quantity referenceId batch).Waits :=
  (issue_waits ar _).bind fun _ => receive_waits ar _

theorem adjust_waits (item warehouse : ID) (q : ℤ) (referenceType : String) (referenceId : ID) :
    (adjust ar item warehouse q referenceType referenceId).Waits := by
  refine (readQty_waits item warehouse).bind fun before => ?_
  show (if ar.sub q before = 0 then _ else _ : Handler Unit).Waits
  split
  · exact Prog.waits_ret _
  · exact upsertAndLog_waits _ _ _

end InventoryLedger

theorem AuditService.record_waits (entity : String) (action : AuditAction) (entityId : ID)
    (operator : Operator) (before after : Option Snapshot) :
    (record entity action entityId operator before after).Waits :=
  (Prog.waits_ask _).bind fun _ => Prog.waits_insert _ _ _

/-- The row of a document that is there is locked by its lock. -/
theorem mem_lockRow {table : TableName} {id : ID} {β : Type} {x : Option β} {b : β}
    (h : x = some b) : Key.row table id ∈ lockRow table id x.isSome := by
  rw [h]
  exact List.mem_singleton_self _

namespace StockTransferRepository

theorem lockTransfer_locksFirst (id : ID) :
    (lockTransfer id).LocksFirst (.row .stockTransfers id) :=
  Prog.locksFirst_lock fun _ _ h => mem_lockRow h

theorem lockTransfer_waits (id : ID) : (lockTransfer id).Waits :=
  (Prog.waits_selectForUpdate _ _).bind fun _ => Prog.waits_orFail _ _

theorem submit_waits (id : ID) : (submit id).Waits := by
  refine ((lockTransfer_waits id).bind fun _ => Prog.waits_ret _).bind fun status => ?_
  exact (Prog.waits_ofExcept _).bind fun new => Prog.waits_update _ _

theorem approve_waits (id : ID) : (approve id).Waits := by
  refine (lockTransfer_waits id).bind fun row => ?_
  refine (Prog.waits_ofExcept _).bind fun new => ?_
  refine (Prog.waits_ask _).bind fun now => ?_
  exact (Prog.waits_update _ _).bind fun _ => Prog.waits_ret _

end StockTransferRepository

theorem StockTransferApprove.recordApproval_waits (ctx : Operator) (id : ID)
    (before : StockTransfer) : (recordApproval ctx id before).Waits := by
  refine (Prog.waits_select _).bind fun row => ?_
  exact (Prog.waits_orFail _ _).bind fun after => AuditService.record_waits _ _ _ _ _ _

namespace InventoryCheckRepository

theorem lockCheck_locksFirst (id : ID) :
    (lockCheck id).LocksFirst (.row .inventoryChecks id) :=
  Prog.locksFirst_lock fun _ _ h => mem_lockRow h

theorem lockCheck_waits (id : ID) : (lockCheck id).Waits :=
  (Prog.waits_selectForUpdate _ _).bind fun _ => Prog.waits_orFail _ _

theorem submit_waits (id : ID) : (submit id).Waits := by
  refine ((lockCheck_waits id).bind fun _ => Prog.waits_ret _).bind fun status => ?_
  exact (Prog.waits_ofExcept _).bind fun new => Prog.waits_update _ _

theorem approve_waits (id : ID) : (approve id).Waits := by
  refine (lockCheck_waits id).bind fun row => ?_
  refine (Prog.waits_ofExcept _).bind fun new => ?_
  refine (Prog.waits_ask _).bind fun now => ?_
  exact (Prog.waits_update _ _).bind fun _ => Prog.waits_ret _

end InventoryCheckRepository

theorem recordCheck_waits (ctx : Operator) (id : ID) (before : InventoryCheck) :
    (recordCheck ctx id before).Waits := by
  refine (Prog.waits_select _).bind fun row => ?_
  exact (Prog.waits_orFail _ _).bind fun after => AuditService.record_waits _ _ _ _ _ _

namespace PurchaseReturnRepository

theorem lockReturn_locksFirst (id : ID) :
    (lockReturn id).LocksFirst (.row .purchaseReturns id) :=
  Prog.locksFirst_lock fun _ _ h => mem_lockRow h

theorem lockReturn_waits (id : ID) : (lockReturn id).Waits :=
  (Prog.waits_selectForUpdate _ _).bind fun _ => Prog.waits_orFail _ _

theorem submit_locksFirst (id : ID) : (submit id).LocksFirst (.row .purchaseReturns id) := by
  refine ((lockReturn_locksFirst id).bind fun _ => Prog.waits_ret _).bind fun status => ?_
  exact (Prog.waits_ofExcept _).bind fun new => Prog.waits_update _ _

theorem approve_waits (id : ID) : (approve id).Waits := by
  refine ((lockReturn_waits id).bind fun _ => Prog.waits_ret _).bind fun status => ?_
  refine (Prog.waits_ofExcept _).bind fun new => ?_
  refine (Prog.waits_ask _).bind fun now => ?_
  exact (Prog.waits_update _ _).bind fun _ => Prog.waits_ret _

end PurchaseReturnRepository

namespace PurchaseReturnApprove

theorem approveHeader_locksFirst (ctx : Operator) (id : ID) :
    (approveHeader ctx id).LocksFirst (.row .purchaseReturns id) := by
  refine (PurchaseReturnRepository.lockReturn_locksFirst id).bind fun before => ?_
  refine (PurchaseReturnRepository.approve_waits id).bind fun _ => ?_
  refine (Prog.waits_select _).bind fun row => ?_
  exact (Prog.waits_orFail _ _).bind fun after => AuditService.record_waits _ _ _ _ _ _

theorem returnLine_waits (ar : Arith) (line : JoinedLine) : (returnLine ar line).Waits :=
  (InventoryLedger.forceIssue_waits ar _).bind fun _ => Prog.waits_writeIf _ _ _ _

end PurchaseReturnApprove

/-- Every request locks the row of the document before anything else. -/
theorem ApprovalRequest.locksFirst (ar : Arith) (kind : DocumentKind) (id : ID)
    (r : ApprovalRequest) : (r.run ar kind id).LocksFirst (kind.key id) := by
  cases r with
  | submit ctx =>
    cases kind with
    | transfer =>
      refine (StockTransferRepository.lockTransfer_locksFirst id).bind fun before => ?_
      refine (StockTransferRepository.submit_waits id).bind fun _ => ?_
      exact StockTransferApprove.recordApproval_waits ctx id before
    | check =>
      refine Prog.LocksFirst.bind ?_ fun _ => Prog.waits_ret _
      refine (InventoryCheckRepository.lockCheck_locksFirst id).bind fun before => ?_
      refine (InventoryCheckRepository.submit_waits id).bind fun _ => ?_
      exact (recordCheck_waits ctx id before).bind fun _ => Prog.waits_ret _
    | purchaseReturn => exact PurchaseReturnRepository.submit_locksFirst id
  | approve ctx =>
    cases kind with
    | transfer =>
      refine (StockTransferRepository.lockTransfer_locksFirst id).bind fun before => ?_
      refine (StockTransferRepository.approve_waits id).bind fun ends => ?_
      refine (Prog.waits_select _).bind fun lines => ?_
      refine (Prog.waits_forEach fun item => InventoryLedger.transfer_waits ar _ _ _ _ _ _).bind
        fun _ => ?_
      exact StockTransferApprove.recordApproval_waits ctx id before
    | check =>
      refine Prog.LocksFirst.bind ?_ fun _ => Prog.waits_ret _
      refine (InventoryCheckRepository.lockCheck_locksFirst id).bind fun before => ?_
      refine (InventoryCheckRepository.approve_waits id).bind fun warehouse => ?_
      refine (Prog.waits_select _).bind fun lines => ?_
      refine (Prog.waits_forEach fun x => InventoryLedger.adjust_waits ar _ _ _ _ _).bind
        fun _ => ?_
      exact (recordCheck_waits ctx id before).bind fun _ => Prog.waits_ret _
    | purchaseReturn =>
      refine (PurchaseReturnApprove.approveHeader_locksFirst ctx id).bind fun _ => ?_
      refine (Prog.waits_select _).bind fun lines => ?_
      exact Prog.waits_forEach fun line => PurchaseReturnApprove.returnLine_waits ar line

/-! ## What a request does alone -/

section Alone

variable {ar : Arith} {v w : Db} {id : ID} {ctx : Operator}

theorem StockTransferApprove.recordApproval_runs {before : StockTransfer}
    (h : (recordApproval ctx id before).Runs v w (.ok ())) :
    ∃ logs, w = { v with auditLogs := logs } := by
  simp only [recordApproval, Prog.runs_bind_ok, Prog.runs_select, Prog.runs_orFail_ok] at h
  obtain ⟨_, row, ⟨rfl, -⟩, _, after, ⟨rfl, -⟩, hrecord⟩ := h
  obtain ⟨-, audit, rfl⟩ := AuditService.record_runs hrecord
  exact ⟨_, rfl⟩

theorem StockTransferSubmit.execute_runs_ok (h : (execute ctx id).Runs v w (.ok ())) :
    ∃ t logs, v.stockTransfers.get? id = some t ∧ t.status = 0 ∧
      w = { v with
        stockTransfers := v.stockTransfers.modify id (StockTransfer.setStatus 1)
          (StockTransfer.setStatus_id 1)
        auditLogs := logs } := by
  simp only [execute, StockTransferRepository.submit, StockTransferRepository.lockStatus,
    Prog.runs_bind_ok, StockTransferApprove.lockTransfer_runs, Prog.runs_ofExcept,
    Prog.runs_update, Prog.pure_eq, Prog.runs_ret] at h
  obtain ⟨_, before, ⟨rfl, -⟩, _, _, ⟨_, status, ⟨_, t, ⟨rfl, ht⟩, rfl, hstatus⟩, _, new,
    ⟨rfl, hnew⟩, rfl, -⟩, hrecord⟩ := h
  obtain rfl := Except.ok.inj hstatus
  obtain ⟨hdraft, rfl⟩ := trFlow_submitStatus.mp hnew.symm
  obtain ⟨logs, rfl⟩ := StockTransferApprove.recordApproval_runs hrecord
  exact ⟨t, logs, ht, hdraft, rfl⟩

theorem StockTransferApprove.execute_approves (h : (execute ar ctx id).Runs v w (.ok ())) :
    ∃ t now u logs, v.stockTransfers.get? id = some t ∧ t.status = 1 ∧
      (Prog.forEach (items id v) (transferItem ar id t.fromWarehouseId t.toWarehouseId)).Runs
        { v with
          stockTransfers := v.stockTransfers.modify id (StockTransfer.approve 3 now)
            (StockTransfer.approve_id 3 now) } u (.ok ()) ∧
      w = { u with auditLogs := logs } := by
  simp only [execute, StockTransferRepository.approve, Prog.runs_bind_ok, lockTransfer_runs,
    Prog.runs_ofExcept, ask, Prog.runs_ask, Prog.runs_update, Prog.runs_select, Prog.pure_eq,
    Prog.runs_ret] at h
  obtain ⟨_, before, ⟨rfl, -⟩, _, ends, ⟨_, t, ⟨rfl, ht⟩, _, new, ⟨rfl, hnew⟩, _, now, ⟨rfl, -⟩,
    _, _, ⟨rfl, -⟩, rfl, hends⟩, _, lines, ⟨rfl, hlines⟩, u, _, hloop, hrecord⟩ := h
  obtain ⟨hstatus, rfl⟩ := trFlow_approveStatus.mp hnew.symm
  obtain rfl := Except.ok.inj hends
  obtain rfl := Except.ok.inj hlines
  obtain ⟨logs, rfl⟩ := recordApproval_runs hrecord
  exact ⟨t, now, u, logs, ht, hstatus, hloop, rfl⟩

/-- A submission finds a draft. -/
theorem PurchaseReturnApprove.submitExecute_draft (h : (submitExecute id).Runs v w (.ok ())) :
    ∃ r, v.purchaseReturns.get? id = some r ∧ r.status = 0 := by
  simp only [submitExecute, PurchaseReturnRepository.submit, PurchaseReturnRepository.lockStatus,
    PurchaseReturnRepository.lockReturn, Prog.runs_bind_ok, Prog.runs_selectForUpdate,
    Prog.runs_orFail_ok, Prog.runs_ofExcept, Prog.runs_update, Prog.pure_eq, Prog.runs_ret] at h
  obtain ⟨_, status, ⟨_, row, ⟨v, found, ⟨rfl, hfound⟩, rfl, hrow⟩, rfl, hstatus⟩, _, new,
    ⟨rfl, hnew⟩, -, -⟩ := h
  obtain rfl := Except.ok.inj hstatus
  exact ⟨row, (Except.ok.inj hfound).symm.trans hrow, (retFlow_submitStatus.mp hnew.symm).1⟩

/-- An approval finds a submitted return. -/
theorem PurchaseReturnApprove.approveHeader_submitted
    (h : (approveHeader ctx id).Runs v w (.ok ())) :
    ∃ r, v.purchaseReturns.get? id = some r ∧ r.status = 1 := by
  simp only [approveHeader, PurchaseReturnRepository.approve, PurchaseReturnRepository.lockStatus,
    PurchaseReturnRepository.lockReturn, Prog.runs_bind_ok, Prog.runs_selectForUpdate,
    Prog.runs_orFail_ok, Prog.runs_ofExcept, Prog.pure_eq, Prog.runs_ret] at h
  obtain ⟨_, before, ⟨_, _, ⟨rfl, -⟩, rfl, -⟩, _, _, ⟨_, status, ⟨_, row, ⟨v, found, ⟨rfl, hfound⟩,
    rfl, hrow⟩, rfl, hstatus⟩, _, new, ⟨rfl, hnew⟩, -⟩, -⟩ := h
  obtain rfl := Except.ok.inj hstatus
  exact ⟨row, (Except.ok.inj hfound).symm.trans hrow, (retFlow_approveStatus.mp hnew.symm).1⟩

/-- A return line changes no return, and no line of one. -/
theorem PurchaseReturnApprove.returnLine_documents (ar : Arith) (line : JoinedLine) :
    (returnLine ar line).Preserves fun db : Db =>
      (db.purchaseReturns, db.purchaseReturnLines, db.purchaseReceiptLines) := by
  refine ((InventoryLedger.forceIssue_preserves _).factor (by intro _; rfl)).bind fun _ => ?_
  exact Prog.preserves_writeIf (by intro _; rfl)

theorem PurchaseReturnApprove.approveExecute_runs_ok
    (h : (approveExecute ar ctx id).Runs v w (.ok ())) :
    ∃ r now logs, v.purchaseReturns.get? id = some r ∧ r.status = 1 ∧
      (Prog.forEach (joinedLines id v) (returnLine ar)).Runs
        { v with
          purchaseReturns := v.purchaseReturns.modify id (PurchaseReturnRow.approve 3 now)
            (PurchaseReturnRow.approve_id 3 now)
          auditLogs := logs } w (.ok ()) := by
  simp only [approveExecute, Prog.runs_bind_ok, Prog.runs_select] at h
  obtain ⟨_, _, hheader, _, lines, ⟨rfl, hlines⟩, hloop⟩ := h
  obtain ⟨r, hr, hstatus⟩ := approveHeader_submitted hheader
  obtain ⟨now, logs, rfl⟩ := approveHeader_runs_ok hheader
  obtain rfl := Except.ok.inj hlines
  exact ⟨r, now, logs, hr, hstatus, hloop⟩

namespace DocumentKind

theorem effects_transfer_eq {t : StockTransfer} (h : v.stockTransfers.get? id = some t) :
    transfer.effects ar id v = Prog.forEach (StockTransferApprove.items id v)
      (StockTransferApprove.transferItem ar id t.fromWarehouseId t.toWarehouseId) := by
  simp only [effects, h]

theorem effects_check_eq {r : InventoryCheck} (h : v.inventoryChecks.get? id = some r) :
    check.effects ar id v = Prog.forEach (InventoryCheckApprove.items id v)
      (InventoryCheckApprove.adjustItem ar id r.warehouseId) := by
  simp only [effects, h]

theorem Applied.of_loop {kind : DocumentKind} {p : Handler Unit} {u u' : Db}
    (he : kind.effects ar id v = p) (h : p.Runs u u' (.ok ())) (hu : u.books = v.books)
    (hw : w.books = u'.books) : kind.Applied ar id v w :=
  ⟨u, u', hu, he ▸ h, hw⟩

/-- The effects of a transfer are those of its lines between its warehouses. -/
theorem effects_transfer {t t' : StockTransfer} (hv : v.stockTransfers.get? id = some t)
    (hw : w.stockTransfers.get? id = some t') (hfrom : t'.fromWarehouseId = t.fromWarehouseId)
    (hto : t'.toWarehouseId = t.toWarehouseId)
    (hitems : w.stockTransferItems = v.stockTransferItems) :
    transfer.effects ar id w = transfer.effects ar id v := by
  have hlines : StockTransferApprove.items id w = StockTransferApprove.items id v := by
    rw [StockTransferApprove.items, hitems, StockTransferApprove.items]
  rw [effects_transfer_eq hw, effects_transfer_eq hv, hfrom, hto, hlines]

theorem effects_check {r r' : InventoryCheck} (hv : v.inventoryChecks.get? id = some r)
    (hw : w.inventoryChecks.get? id = some r') (hwarehouse : r'.warehouseId = r.warehouseId)
    (hitems : w.inventoryCheckItems = v.inventoryCheckItems) :
    check.effects ar id w = check.effects ar id v := by
  have hlines : InventoryCheckApprove.items id w = InventoryCheckApprove.items id v := by
    rw [InventoryCheckApprove.items, Db.checkLines, hitems]
    rfl
  rw [effects_check_eq hw, effects_check_eq hv, hwarehouse, hlines]

theorem effects_purchaseReturn (hlines : w.purchaseReturnLines = v.purchaseReturnLines)
    (hreceipts : w.purchaseReceiptLines = v.purchaseReceiptLines) :
    purchaseReturn.effects ar id w = purchaseReturn.effects ar id v := by
  have hjoined : PurchaseReturnApprove.joinedLines id w = PurchaseReturnApprove.joinedLines id v := by
    rw [PurchaseReturnApprove.joinedLines, hlines, hreceipts, PurchaseReturnApprove.joinedLines]
  simp only [effects, hjoined]

end DocumentKind

/-- A submission that goes through turns a draft into a submitted document, and nothing else. -/
theorem ApprovalRequest.submit_runs (kind : DocumentKind)
    (h : ((submit ctx).run ar kind id).Runs v w (.ok ())) :
    kind.status? id v = some kind.flow.submit.1 ∧ kind.status? id w = some kind.flow.submit.2 ∧
      w.books = v.books ∧ kind.effects ar id w = kind.effects ar id v := by
  cases kind with
  | transfer =>
    obtain ⟨t, logs, ht, hstatus, rfl⟩ := StockTransferSubmit.execute_runs_ok h
    have hget : (v.stockTransfers.modify id (StockTransfer.setStatus 1)
        (StockTransfer.setStatus_id 1)).get? id = some (t.setStatus 1) :=
      Table.get?_modify_of_some ht
    refine ⟨?_, congrArg (Option.map StockTransfer.status) hget, rfl,
      DocumentKind.effects_transfer ht hget rfl rfl rfl⟩
    exact (congrArg (Option.map StockTransfer.status) ht).trans (congrArg some hstatus)
  | check =>
    obtain ⟨response, h⟩ := Prog.runs_discard h
    obtain ⟨r, logs, hr, hstatus, rfl⟩ := InventoryCheckSubmit.execute_runs_ok h
    have hget : (v.inventoryChecks.modify id (InventoryCheck.setStatus 1)
        (InventoryCheck.setStatus_id 1)).get? id = some (r.setStatus 1) :=
      Table.get?_modify_of_some hr
    refine ⟨?_, congrArg (Option.map InventoryCheck.status) hget, rfl,
      DocumentKind.effects_check hr hget rfl rfl⟩
    exact (congrArg (Option.map InventoryCheck.status) hr).trans (congrArg some hstatus)
  | purchaseReturn =>
    obtain ⟨r, hr, hstatus⟩ := PurchaseReturnApprove.submitExecute_draft h
    obtain rfl := PurchaseReturnApprove.submitExecute_runs_ok h
    have hget : (v.purchaseReturns.modify id (PurchaseReturnRow.setStatus 1)
        (PurchaseReturnRow.setStatus_id 1)).get? id = some (r.setStatus 1) :=
      Table.get?_modify_of_some hr
    refine ⟨?_, congrArg (Option.map fun r : PurchaseReturnRow => r.status) hget, rfl,
      DocumentKind.effects_purchaseReturn rfl rfl⟩
    exact (congrArg (Option.map fun r : PurchaseReturnRow => r.status) hr).trans (congrArg some hstatus)

/-- The status that an approval leaves. -/
def DocumentKind.approved : DocumentKind → ℤ
  | transfer => StockTransferStatus.approved.toI16
  | check => InventoryCheckStatus.approved.toI16
  | purchaseReturn => PurchaseReturnStatus.approved.toI16

/-- An approval that goes through turns a submitted document into an approved one, and makes its
effects. -/
theorem ApprovalRequest.approve_runs (kind : DocumentKind)
    (h : ((approve ctx).run ar kind id).Runs v w (.ok ())) :
    kind.status? id v = some kind.flow.submit.2 ∧ kind.status? id w = some kind.approved ∧
      kind.Applied ar id v w ∧ kind.effects ar id w = kind.effects ar id v := by
  cases kind with
  | transfer =>
    obtain ⟨t, now, u, logs, ht, hstatus, hloop, rfl⟩ := StockTransferApprove.execute_approves h
    have hsame := (Prog.preserves_forEach fun x _ =>
      InventoryLedger.transfer_preserves x.itemId _ _ x.quantity id none).runs hloop
    have hset : (v.stockTransfers.modify id (StockTransfer.approve 3 now)
        (StockTransfer.approve_id 3 now)).get? id = some (t.approve 3 now) :=
      Table.get?_modify_of_some ht
    have hget : u.stockTransfers.get? id = some (t.approve 3 now) :=
      (congrArg (fun db : Db => db.stockTransfers.get? id) hsame).trans hset
    refine ⟨?_, congrArg (Option.map StockTransfer.status) hget,
      .of_loop (DocumentKind.effects_transfer_eq ht) hloop rfl rfl,
      DocumentKind.effects_transfer ht hget rfl rfl (congrArg Db.stockTransferItems hsame :)⟩
    exact (congrArg (Option.map StockTransfer.status) ht).trans (congrArg some hstatus)
  | check =>
    obtain ⟨response, h⟩ := Prog.runs_discard h
    obtain ⟨r, now, u, logs, hr, hstatus, hloop, rfl⟩ := InventoryCheckApprove.execute_runs_ok h
    have hadjust : ∀ x : ID × ℤ, (InventoryCheckApprove.adjustItem ar id r.warehouseId x).Preserves
        InventoryLedger.withoutStock := fun _ => InventoryLedger.adjust_preserves _ _ _ _ _
    have hsame := (Prog.preserves_forEach fun x _ => hadjust x).runs hloop
    have hset : (v.inventoryChecks.modify id (InventoryCheck.approve 3 now)
        (InventoryCheck.approve_id 3 now)).get? id = some (r.approve 3 now) :=
      Table.get?_modify_of_some hr
    have hget : u.inventoryChecks.get? id = some (r.approve 3 now) :=
      (congrArg (fun db : Db => db.inventoryChecks.get? id) hsame).trans hset
    refine ⟨?_, congrArg (Option.map InventoryCheck.status) hget,
      .of_loop (DocumentKind.effects_check_eq hr) hloop rfl rfl,
      DocumentKind.effects_check hr hget rfl (congrArg Db.inventoryCheckItems hsame :)⟩
    exact (congrArg (Option.map InventoryCheck.status) hr).trans (congrArg some hstatus)
  | purchaseReturn =>
    obtain ⟨r, now, logs, hr, hstatus, hloop⟩ := PurchaseReturnApprove.approveExecute_runs_ok h
    have hsame := (Prog.preserves_forEach fun line _ =>
      PurchaseReturnApprove.returnLine_documents ar line).runs hloop
    have hset : (v.purchaseReturns.modify id (PurchaseReturnRow.approve 3 now)
        (PurchaseReturnRow.approve_id 3 now)).get? id = some (r.approve 3 now) :=
      Table.get?_modify_of_some hr
    have hget : w.purchaseReturns.get? id = some (r.approve 3 now) :=
      (congrArg (fun x => Table.get? x.1 id) hsame).trans hset
    refine ⟨?_, congrArg (Option.map fun r : PurchaseReturnRow => r.status) hget,
      .of_loop rfl hloop rfl rfl, ?_⟩
    · exact (congrArg (Option.map fun r : PurchaseReturnRow => r.status) hr).trans
        (congrArg some hstatus)
    · obtain ⟨-, hrest⟩ := Prod.mk.inj hsame
      obtain ⟨hlines, hreceipts⟩ := Prod.mk.inj hrest
      exact DocumentKind.effects_purchaseReturn hlines hreceipts

end Alone

/-! ## Runs -/

/-- How far a document has got from `v` to `w`: its status stays or goes from draft to submitted to
approved, and the effects are made with the approval, once. -/
inductive DocumentKind.Reached (ar : Arith) (kind : DocumentKind) (id : ID) (v w : Db) : Prop where
  | untouched (hstatus : kind.status? id w = kind.status? id v) (hbooks : w.books = v.books)
  | submitted (hv : kind.status? id v = some kind.flow.submit.1)
      (hw : kind.status? id w = some kind.flow.submit.2) (hbooks : w.books = v.books)
  | approved
      (hv : kind.status? id v = some kind.flow.submit.1 ∨
        kind.status? id v = some kind.flow.submit.2)
      (hw : kind.status? id w = some kind.approved) (heffects : kind.Applied ar id v w)

namespace DocumentKind

variable {ar : Arith} {kind : DocumentKind} {id : ID} {v u w : Db}

/-- The effects are those of the earlier database if its document and its books are. -/
theorem Applied.of_eq (h : kind.Applied ar id u w) (hbooks : u.books = v.books)
    (heffects : kind.effects ar id u = kind.effects ar id v) : kind.Applied ar id v w := by
  obtain ⟨x, y, hx, hrun, hy⟩ := h
  exact ⟨x, y, hx.trans hbooks, heffects ▸ hrun, hy⟩

/-- No approval starts from an approved document. -/
theorem approved_ne (kind : DocumentKind) :
    kind.approved ≠ kind.flow.submit.1 ∧ kind.approved ≠ kind.flow.submit.2 ∧
      kind.flow.submit.2 ≠ kind.flow.submit.1 := by
  cases kind <;> decide

theorem Reached.submit {ctx : Operator} (h : kind.Reached ar id v u)
    (hr : ((ApprovalRequest.submit ctx).run ar kind id).Runs u w (.ok ())) :
    kind.Reached ar id v w := by
  obtain ⟨hu, hw, hbooks, -⟩ := ApprovalRequest.submit_runs kind hr
  obtain ⟨hne, -, hne'⟩ := kind.approved_ne
  cases h with
  | untouched hs hb => exact .submitted (hs.symm.trans hu) hw (hbooks.trans hb)
  | submitted hv hs hb => exact absurd (Option.some.inj (hs.symm.trans hu)) hne'
  | approved hv hs he => exact absurd (Option.some.inj (hs.symm.trans hu)) hne

theorem Reached.approve {ctx : Operator} (h : kind.Reached ar id v u)
    (heffects : kind.effects ar id u = kind.effects ar id v)
    (hr : ((ApprovalRequest.approve ctx).run ar kind id).Runs u w (.ok ())) :
    kind.Reached ar id v w := by
  obtain ⟨hu, hw, happlied, -⟩ := ApprovalRequest.approve_runs kind hr
  obtain ⟨-, hne, -⟩ := kind.approved_ne
  cases h with
  | untouched hs hb => exact .approved (.inr (hs.symm.trans hu)) hw (happlied.of_eq hb heffects)
  | submitted hv hs hb => exact .approved (.inl hv) hw (happlied.of_eq hb heffects)
  | approved hv hs he => exact absurd (Option.some.inj (hs.symm.trans hu)) hne

end DocumentKind

/-- A submitted transfer of five units. -/
def submittedTransfer : Db :=
  { Db.empty with
    inventories := Table.empty.insert ⟨1, 7, 1, 20, 0, 1⟩
    stockTransfers := Table.empty.insert ⟨10, "TRF-1", 1, 2, 1, 0, none, none⟩
    stockTransferItems := Table.empty.insert ⟨11, 10, 7, 5⟩ }

/-- Two approvals at once. -/
def approvedTwice : List (Action ApprovalRequest Answer) :=
  [.start (.approve ⟨5, none, none⟩), .start (.approve ⟨6, none, none⟩)] ++
    ((List.range 19).map fun n => .step 0 (numbered (100 + n) 0)) ++
    ((List.range 3).map fun n => .step 1 (numbered (200 + n) 0))

end Slab
