import Slab.Erp.Services

/-!
# The approval of sales orders

`SalesOrderSubmit.execute` and `SalesOrderApprove.execute` are the handlers of
`POST /api/v1/sales-orders/{id}/submit` and `/approve`.
-/

namespace Slab

open Txn

/-- Sales orders: draft, submitted, with the supervisor, approved; there is no way back. -/
def soFlow : StateTransitions where
  submit := (SalesOrderStatus.draft.toI16, SalesOrderStatus.submitted.toI16)
  approvals := [
    (SalesOrderStatus.submitted.toI16, SalesOrderStatus.pendingSupervisor.toI16),
    (SalesOrderStatus.pendingSupervisor.toI16, SalesOrderStatus.approved.toI16)]
  reject := none

/-- `SET status = $1`. -/
def SalesOrder.setStatus (status : ℤ) (r : SalesOrder) : SalesOrder := { r with status := status }

theorem SalesOrder.setStatus_id (status : ℤ) (r : SalesOrder) : (r.setStatus status).id = r.id :=
  rfl

structure SalesActionResponse where
  success : Bool
deriving DecidableEq

/-- `SELECT … WHERE id = $1 FOR UPDATE`. -/
def lockReadSalesOrder (id : ID) : Handler SalesOrder := do
  let found ← Prog.selectForUpdate (fun db => lockRow .salesOrders id (db.salesOrders.has id))
    fun db => db.salesOrders.get? id
  Prog.orFail found (.sales .notFound)

namespace SalesOrderRepository

def lockStatus (id : ID) : Handler ℤ := do
  let row ← lockReadSalesOrder id
  pure row.status

/-- `UPDATE … SET status = $1`; the time of approval is not kept. -/
def updateStatus (id : ID) (status : ℤ) : Handler Unit :=
  Prog.update (fun db => lockRow .salesOrders id (db.salesOrders.has id)) fun db =>
    { db with
      salesOrders := db.salesOrders.modify id (SalesOrder.setStatus status)
        (SalesOrder.setStatus_id status) }

def submit (id : ID) : Handler Unit := do
  let status ← lockStatus id
  let newStatus ← Prog.ofExcept (soFlow.submitStatus status)
  updateStatus id newStatus

def approve (id : ID) : Handler Unit := do
  let status ← lockStatus id
  let newStatus ← Prog.ofExcept (soFlow.approveStatus status)
  updateStatus id newStatus

end SalesOrderRepository

/-- The order before, the transition, the order after, and the audit row of both. -/
def changeSalesOrder (ctx : Operator) (id : ID) (act : Handler Unit) :
    Handler SalesActionResponse := do
  let before ← lockReadSalesOrder id
  act
  let after ← lockReadSalesOrder id
  AuditService.recordUpdated "sales_order" id ctx (.salesOrder before) (.salesOrder after)
  pure { success := true }

def SalesOrderSubmit.execute (ctx : Operator) (id : ID) : Handler SalesActionResponse :=
  changeSalesOrder ctx id (SalesOrderRepository.submit id)

def SalesOrderApprove.execute (ctx : Operator) (id : ID) : Handler SalesActionResponse :=
  changeSalesOrder ctx id (SalesOrderRepository.approve id)

/-- Everything but the headers of sales orders and the audit trail, and which orders are there. -/
def salesOrdersAside (db : Db) : Db × (ID → Bool) :=
  ({ db with salesOrders := .empty, auditLogs := [] }, db.salesOrders.has)

theorem lockReadSalesOrder_preserves {τ : Type} (f : Db → τ) (id : ID) :
    (lockReadSalesOrder id).Preserves f :=
  (Prog.preserves_selectForUpdate _ _).bind fun _ => Prog.preserves_orFail _ _

namespace SalesOrderRepository

theorem updateStatus_preserves (id : ID) (status : ℤ) :
    (updateStatus id status).Preserves salesOrdersAside := by
  refine Prog.preserves_update fun db => Prod.ext rfl (funext fun j => ?_)
  show ((db.salesOrders.modify id (SalesOrder.setStatus status)
    (SalesOrder.setStatus_id status)).get? j).isSome = (db.salesOrders.get? j).isSome
  rw [Table.get?_modify]
  split <;> simp

theorem lockStatus_preserves {τ : Type} (f : Db → τ) (id : ID) : (lockStatus id).Preserves f :=
  (lockReadSalesOrder_preserves f id).bind fun _ => Prog.preserves_ret _

theorem submit_preserves (id : ID) : (submit id).Preserves salesOrdersAside :=
  (lockStatus_preserves _ id).bind fun _ => (Prog.preserves_ofExcept _).bind fun status =>
    updateStatus_preserves id status

theorem approve_preserves (id : ID) : (approve id).Preserves salesOrdersAside :=
  (lockStatus_preserves _ id).bind fun _ => (Prog.preserves_ofExcept _).bind fun status =>
    updateStatus_preserves id status

end SalesOrderRepository

theorem changeSalesOrder_preserves (ctx : Operator) (id : ID) {act : Handler Unit}
    (h : act.Preserves salesOrdersAside) :
    (changeSalesOrder ctx id act).Preserves salesOrdersAside := by
  refine (lockReadSalesOrder_preserves _ id).bind fun before => ?_
  refine h.bind fun _ => ?_
  refine (lockReadSalesOrder_preserves _ id).bind fun after => ?_
  refine Prog.Preserves.bind ?_ fun _ => Prog.preserves_ret _
  exact (Prog.preserves_ask _).bind fun _ => Prog.preserves_insert (by intro _; rfl)

end Slab
