import Slab.Erp.Purchase
import Slab.Txn.Guard

/-!
# The life of a purchase order

The handlers that create, submit, approve, reject and delete purchase orders, and receipts of
them, interleaved statement by statement. Each of them locks the order before it looks at its
status, so that the requests that went through can be replayed on the status alone.

## Main definitions

- `PurchaseOrderRepository` — locked reads of the status and its transitions
- `PurchaseOrderCreate.execute`, `PurchaseOrderSubmit.execute`, … — the handlers
- `OrderRequest.next` — the status that a request makes of another
- `lifecycleGuard` — what the row of an order guards

## Main results

- `changeStatus_safe`, `receipt_safe`, `create_safe` — each request among others
- `lifecycle_of_run` — the orders and their receipts along every run
-/

namespace Slab

open Txn

/-- `SET status = $1`. -/
def PurchaseOrder.setStatus (status : ℤ) (r : PurchaseOrder) : PurchaseOrder :=
  { r with status := status }

theorem PurchaseOrder.setStatus_id (status : ℤ) (r : PurchaseOrder) :
    (r.setStatus status).id = r.id := rfl

/-! ## The repository -/

namespace PurchaseOrderRepository

/-- `SELECT … WHERE id = $1 FOR UPDATE`. -/
def lockOrder (id : ID) : Handler PurchaseOrder := do
  let found ← Prog.selectForUpdate
    (fun db => lockRow .purchaseOrders id (db.purchaseOrders.has id))
    fun db => db.purchaseOrders.get? id
  Prog.orFail found (.purchase .notFound)

def lockStatus (id : ID) : Handler ℤ := do
  let row ← lockOrder id
  pure row.status

def setStatus (id : ID) (status : ℤ) (db : Db) : Db :=
  { db with
    purchaseOrders := db.purchaseOrders.modify id (PurchaseOrder.setStatus status)
      (PurchaseOrder.setStatus_id status) }

/-- `UPDATE … SET status = $1`; the times of approval and rejection are not kept here. -/
def updateStatus (id : ID) (status : ℤ) : Handler Unit :=
  Prog.update (fun db => lockRow .purchaseOrders id (db.purchaseOrders.has id))
    (setStatus id status)

/-- The locked read, the rule of the flow, and the new status. -/
def transition (id : ID) (rule : ℤ → Except AppError ℤ) : Handler ℤ := do
  let status ← lockStatus id
  let newStatus ← Prog.ofExcept (rule status)
  updateStatus id newStatus
  pure newStatus

def submit (id : ID) : Handler ℤ := transition id poFlow.submitStatus

def approve (id : ID) : Handler ℤ := transition id poFlow.approveStatus

def reject (id : ID) : Handler ℤ := transition id poFlow.rejectStatus

end PurchaseOrderRepository

open PurchaseOrderRepository (lockOrder lockStatus setStatus updateStatus transition)

/-! ## Changes of the status -/

/-- The order before, the transition, the order after, and the audit row of both. -/
def changeStatus (ctx : Operator) (id : ID) (act : Handler ℤ) : Handler ℤ := do
  let before ← lockOrder id
  let newStatus ← act
  let row ← Prog.select fun db => db.purchaseOrders.get? id
  let after ← Prog.orFail row (.sql .rowNotFound)
  AuditService.recordUpdated "purchase_order" id ctx (.purchaseOrder before) (.purchaseOrder after)
  pure newStatus

namespace PurchaseOrderSubmit

structure SubmitPurchaseOrderResponse where
  submitted : Bool
deriving DecidableEq

def execute (ctx : Operator) (id : ID) : Handler SubmitPurchaseOrderResponse := do
  let _ ← changeStatus ctx id (PurchaseOrderRepository.submit id)
  pure { submitted := true }

end PurchaseOrderSubmit

namespace PurchaseOrderApprove

structure ApprovePurchaseOrderResponse where
  approved : Bool
  status : ℤ
deriving DecidableEq

def execute (ctx : Operator) (id : ID) : Handler ApprovePurchaseOrderResponse := do
  let newStatus ← changeStatus ctx id (PurchaseOrderRepository.approve id)
  pure { approved := true, status := newStatus }

end PurchaseOrderApprove

namespace PurchaseOrderReject

structure RejectPurchaseOrderResponse where
  rejected : Bool
deriving DecidableEq

def execute (ctx : Operator) (id : ID) : Handler RejectPurchaseOrderResponse := do
  let _ ← changeStatus ctx id (PurchaseOrderRepository.reject id)
  pure { rejected := true }

end PurchaseOrderReject

namespace PurchaseOrderDelete

structure DeletePurchaseOrderResponse where
  deleted : Bool
deriving DecidableEq

def execute (ctx : Operator) (id : ID) : Handler DeletePurchaseOrderResponse := do
  let before ← lockOrder id
  Prog.ensure (before.status = PurchaseOrderStatus.draft.toI16) (.purchase .notDraft)
  updateStatus id PurchaseOrderStatus.deleted.toI16
  AuditService.recordDeleted "purchase_order" id ctx (.purchaseOrder before)
  pure { deleted := true }

end PurchaseOrderDelete

/-! ## Creation -/

namespace PurchaseOrderCreate

structure CreateOrderLine where
  itemId : ID
  quantity : ℤ
  unitPrice : ℤ
deriving DecidableEq

/-- The columns that the order and its lines keep here. -/
structure CreatePurchaseOrderRequest where
  supplierId : ID
  lines : List CreateOrderLine
deriving DecidableEq

structure CreatePurchaseOrderResponse where
  id : ID
  code : String
deriving DecidableEq

/-- The identifiers of the lines. -/
def lineIds : List CreateOrderLine → Handler (List (ID × CreateOrderLine))
  | [] => pure []
  | line :: lines => do
    let lineId ← ask .newId
    let rest ← lineIds lines
    pure ((lineId, line) :: rest)

def storeOrder (row : PurchaseOrder) (db : Db) : Db :=
  { db with purchaseOrders := db.purchaseOrders.insert row }

/-- `line.quantity * line.unit_price`, wrapping. -/
def lineTotal (line : CreateOrderLine) : ℤ := Arith.i64.mul line.quantity line.unitPrice

/-- `total_amount += …` over the lines. -/
def totalAmount (lines : List CreateOrderLine) : ℤ := Arith.i64.addAll 0 (lines.map lineTotal)

/-- `line_no as i16 + 1`. -/
def lineNo (i : ℕ) : ℤ := Arith.i16.add (Arith.i16.norm i) 1

/-- The stored line. -/
def orderLine (i : ℕ) (lineId orderId : ID) (line : CreateOrderLine) : PurchaseOrderLine where
  id := lineId
  orderId := orderId
  itemId := line.itemId
  quantity := line.quantity
  receivedQty := 0
  returnedQty := 0
  closed := false
  lineNo := lineNo i
  unitPrice := line.unitPrice
  lineTotal := lineTotal line

/-- One round of `for (line_no, (line_id, line)) in lines.into_iter().enumerate()`. -/
def insertLine (orderId : ID) (line : (ID × CreateOrderLine) × ℕ) : Handler Unit :=
  insertRow .purchaseOrderLines line.1.1 (fun db => db.purchaseOrderLines.has line.1.1) fun db =>
    { db with
      purchaseOrderLines :=
        db.purchaseOrderLines.insert (orderLine line.2 line.1.1 orderId line.1.2) }

/-- The audit row, from the order read back. -/
def recordOrder (ctx : Operator) (id : ID) : Handler Unit := do
  let row ← Prog.select fun db => db.purchaseOrders.get? id
  let order ← Prog.orFail row (.purchase .notFound)
  AuditService.recordCreate "purchase_order" id ctx (.purchaseOrder order)

def execute (ctx : Operator) (request : CreatePurchaseOrderRequest) :
    Handler CreatePurchaseOrderResponse := do
  Prog.ensure (!request.lines.isEmpty) (.purchase .emptyOrder)
  let id ← ask .newId
  let code ← DocNumberer.nextNumber "seq_purchase_order" "PO"
  let lines ← lineIds request.lines
  insertRow .purchaseOrders id (fun db => db.purchaseOrders.has id)
    (storeOrder {
      id := id, supplierId := request.supplierId, status := 0
      totalAmount := totalAmount request.lines })
  Prog.forEach lines.zipIdx (insertLine id)
  recordOrder ctx id
  pure { id := id, code := code }

end PurchaseOrderCreate

open PurchaseOrderCreate (storeOrder)

/-! ## Requests on orders -/

inductive OrderRequest where
  | create (ctx : Operator) (request : PurchaseOrderCreate.CreatePurchaseOrderRequest)
  | submit (ctx : Operator) (id : ID)
  | approve (ctx : Operator) (id : ID)
  | reject (ctx : Operator) (id : ID)
  | delete (ctx : Operator) (id : ID)
  | receipt (ctx : Operator) (request : PurchaseReceiptCreate.CreateReceiptRequest)
deriving DecidableEq

namespace OrderRequest

def run : OrderRequest → Handler Unit
  | create ctx request => do
    let _ ← PurchaseOrderCreate.execute ctx request
    pure ()
  | submit ctx id => do
    let _ ← PurchaseOrderSubmit.execute ctx id
    pure ()
  | approve ctx id => do
    let _ ← PurchaseOrderApprove.execute ctx id
    pure ()
  | reject ctx id => do
    let _ ← PurchaseOrderReject.execute ctx id
    pure ()
  | delete ctx id => do
    let _ ← PurchaseOrderDelete.execute ctx id
    pure ()
  | receipt ctx request => do
    let _ ← PurchaseReceiptCreate.execute .i64 ctx request
    pure ()

/-- The order that the request names; a new order has no name yet. -/
def order? : OrderRequest → Option ID
  | create _ _ => none
  | submit _ id => some id
  | approve _ id => some id
  | reject _ id => some id
  | delete _ id => some id
  | receipt _ request => some request.orderId

/-- The status that a request which goes through makes of another: what the flow says, deletion of
drafts, and receipts of approved orders. -/
def next : OrderRequest → ℤ → Option ℤ
  | create _ _, _ => none
  | submit _ _, status => (poFlow.submitStatus status).toOption
  | approve _ _, status => (poFlow.approveStatus status).toOption
  | reject _ _, status => (poFlow.rejectStatus status).toOption
  | delete _ _, status =>
    if status = PurchaseOrderStatus.draft.toI16 then some PurchaseOrderStatus.deleted.toI16
    else none
  | receipt _ _, status =>
    if status = PurchaseOrderStatus.approved.toI16 then some PurchaseOrderStatus.approved.toI16
    else none

/-- The request adds a receipt. -/
def isReceipt : OrderRequest → Bool
  | receipt _ _ => true
  | _ => false

/-- An approved order stays approved. -/
theorem next_approved {r : OrderRequest} {status : ℤ}
    (h : r.next PurchaseOrderStatus.approved.toI16 = some status) :
    status = PurchaseOrderStatus.approved.toI16 := by
  cases r with
  | create ctx request => cases h
  | receipt ctx request =>
    rw [next, if_pos rfl] at h
    exact (Option.some.inj h).symm
  | submit ctx id => cases h
  | approve ctx id => cases h
  | reject ctx id => cases h
  | delete ctx id => cases h

theorem next_of_isReceipt {r : OrderRequest} (hr : r.isReceipt = true) {status new : ℤ}
    (h : r.next status = some new) :
    status = PurchaseOrderStatus.approved.toI16 ∧ new = PurchaseOrderStatus.approved.toI16 := by
  cases r with
  | receipt ctx request =>
    rw [next] at h
    split at h
    · next hs => exact ⟨hs, (Option.some.inj h).symm⟩
    · cases h
  | _ => cases hr

/-- No request makes an approved order of a draft at once. -/
theorem next_draft_ne_approved (r : OrderRequest) :
    r.next PurchaseOrderStatus.draft.toI16 ≠ some PurchaseOrderStatus.approved.toI16 := by
  cases r <;> simp [next, poFlow, StateTransitions.submitStatus, StateTransitions.approveStatus,
    StateTransitions.rejectStatus, PurchaseOrderStatus.toI16, Except.toOption]

end OrderRequest

/-! ## What the row of an order guards -/

/-- The number of receipts of an order. -/
def Db.receiptCount (db : Db) (orderId : ID) : ℤ :=
  db.purchaseReceipts.tally (fun r => r.orderId = orderId) fun _ => 1

/-- What one row guards: the status of an order with the number of its receipts, or the presence of
a receipt. -/
inductive OrderPart where
  | order (status : Option ℤ) (receipts : ℤ)
  | receipt (present : Bool)
  | other

def OrderPart.status? : OrderPart → Option ℤ
  | .order status _ => status
  | _ => none

def lifecyclePart (db : Db) : Key → OrderPart
  | .row .purchaseOrders id =>
    .order ((db.purchaseOrders.get? id).map PurchaseOrder.status) (db.receiptCount id)
  | .row .purchaseReceipts id => .receipt (db.purchaseReceipts.has id)
  | _ => .other

/-- The requests of a record on a status, one after another. -/
def replay : ℤ → List (Event OrderRequest Answer) → Option ℤ
  | status, [] => some status
  | status, .called _ _ :: log => replay status log
  | status, .committed r :: log => (r.next status).bind fun status => replay status log

/-- The receipts of a record. -/
def receiptsIn : List (Event OrderRequest Answer) → ℤ
  | [] => 0
  | .called _ _ :: log => receiptsIn log
  | .committed r :: log => (if r.isReceipt then 1 else 0) + receiptsIn log

theorem replay_append (status : ℤ) (log log' : List (Event OrderRequest Answer)) :
    replay status (log ++ log') = (replay status log).bind fun status => replay status log' := by
  induction log generalizing status with
  | nil => rfl
  | cons e log ih =>
    cases e with
    | called q a => exact ih status
    | committed r =>
      simp only [List.cons_append, replay]
      cases r.next status with
      | none => rfl
      | some new => exact ih new

theorem receiptsIn_append (log log' : List (Event OrderRequest Answer)) :
    receiptsIn (log ++ log') = receiptsIn log + receiptsIn log' := by
  induction log with
  | nil => rw [List.nil_append, receiptsIn, zero_add]
  | cons e log ih =>
    cases e with
    | called q a => exact ih
    | committed r =>
      simp only [List.cons_append, receiptsIn, ih]
      omega

/-- An order that had the status `status₀` and `count₀` receipts has the status that its requests
make of it, and a receipt only if it is approved. -/
def OrderPart.Lives (status₀ count₀ : ℤ) : OrderPart → List (Event OrderRequest Answer) → Prop
  | .order none n, log =>
    n = 0 ∧ log = [] ∧ status₀ = PurchaseOrderStatus.draft.toI16 ∧ count₀ = 0
  | .order (some status) n, log => replay status₀ log = some status ∧
    n = count₀ + receiptsIn log ∧ (0 < n → status = PurchaseOrderStatus.approved.toI16)
  | _, _ => True

/-- The record of an order that is not there yet is that of a draft. -/
theorem OrderPart.Lives.replay {status₀ count₀ n : ℤ} {status : Option ℤ}
    {log : List (Event OrderRequest Answer)}
    (h : (OrderPart.order status n).Lives status₀ count₀ log) :
    Slab.replay status₀ log = some (status.getD PurchaseOrderStatus.draft.toI16) ∧
      n = count₀ + receiptsIn log := by
  cases status with
  | none =>
    obtain ⟨rfl, rfl, rfl, rfl⟩ := h
    exact ⟨rfl, rfl⟩
  | some status => exact ⟨h.1, h.2.1⟩

/-- The status of an order at the start, draft if there is none. -/
def Db.statusOr (db : Db) (id : ID) : ℤ :=
  ((db.purchaseOrders.get? id).map PurchaseOrder.status).getD PurchaseOrderStatus.draft.toI16

/-- An order's row guards its status and its receipts; an order stays, and an approved one stays
approved. -/
def lifecycleGuard (initial : Db) : Guard Db Key OrderPart OrderRequest Answer where
  proj k db := lifecyclePart db k
  about k e :=
    match k, e with
    | .row .purchaseOrders id, .committed r => decide (r.order? = some id)
    | _, _ => false
  inv k part log :=
    match k with
    | .row .purchaseOrders id => part.Lives (initial.statusOr id) (initial.receiptCount id) log
    | _ => True
  moves _ s t := ∀ status, s.1.status? = some status → ∃ status', t.1.status? = some status' ∧
    (status = PurchaseOrderStatus.approved.toI16 → status' = PurchaseOrderStatus.approved.toI16)
  moves_refl _ _ status h := ⟨status, h, fun h => h⟩
  moves_trans _ _ _ _ h h' status hs := by
    obtain ⟨status', hs', ha⟩ := h status hs
    obtain ⟨status'', hs'', ha'⟩ := h' status' hs'
    exact ⟨status'', hs'', fun hs => ha' (ha hs)⟩
  pre _ _ _ := True
  assumes _ _ _ _ := True

variable {initial : Db}

/-- The key of an order. -/
abbrev orderKey (id : ID) : Key := .row .purchaseOrders id

@[simp] theorem lifecycleGuard_proj (k : Key) (db : Db) :
    (lifecycleGuard initial).proj k db = lifecyclePart db k := rfl

theorem lifecycleGuard_about {k : Key} {r : OrderRequest}
    (h : (lifecycleGuard initial).about k (.committed r) = true) :
    ∃ id, k = orderKey id ∧ r.order? = some id := by
  rcases k with _ | ⟨tn, id⟩
  · cases h
  · cases tn with
    | purchaseOrders => exact ⟨id, rfl, of_decide_eq_true h⟩
    | _ => cases h

/-- Answers are not recorded about orders. -/
theorem lifecycleGuard_called (q : Ask) (a : Answer q) (k : Key) :
    (lifecycleGuard initial).about k (.called q a) = false := by
  rcases k with _ | ⟨tn, id⟩
  · rfl
  · cases tn <;> rfl

theorem lifecycleGuard_log {r : OrderRequest} (id : ID) :
    (lifecycleGuard initial).log (orderKey id) [.committed r] =
      if r.order? = some id then [.committed r] else [] := by
  by_cases h : r.order? = some id
  · simp [Guard.log, lifecycleGuard, h]
  · simp [Guard.log, lifecycleGuard, h]

/-- The tables that the guard looks at. -/
def lifecycleTables (db : Db) : Table PurchaseOrder.id × Table PurchaseReceipt.id :=
  (db.purchaseOrders, db.purchaseReceipts)

theorem lifecyclePart_congr {x y : Db} (h : lifecycleTables x = lifecycleTables y) (k : Key) :
    lifecyclePart x k = lifecyclePart y k := by
  obtain ⟨h₁, h₂⟩ := Prod.mk.inj h
  unfold lifecyclePart Db.receiptCount
  rw [h₁, h₂]

/-- A program that leaves the guarded tables alone is neutral. -/
theorem lifecycleGuard_neutral {α : Type} {p : Handler α} (hp : p.Preserves lifecycleTables) :
    (lifecycleGuard initial).Neutral p := by
  exact .of_preserves hp (fun k _ _ h => lifecyclePart_congr h k)
    (fun k q a => lifecycleGuard_called q a k) fun _ _ _ => trivial

/-! ## The three writes -/

section Writes

variable {db : Db}

theorem lifecyclePart_setStatus_self (id : ID) (status : ℤ) :
    lifecyclePart (setStatus id status db) (orderKey id) =
      .order (((db.purchaseOrders.get? id).map PurchaseOrder.status).map fun _ => status)
        (db.receiptCount id) := by
  show OrderPart.order _ _ = _
  simp only [setStatus, Table.get?_modify_self, Option.map_map]
  rfl

theorem lifecyclePart_setStatus_of_ne (id : ID) (status : ℤ) {k : Key} (hk : k ≠ orderKey id) :
    lifecyclePart (setStatus id status db) k = lifecyclePart db k := by
  rcases k with _ | ⟨tn, j⟩
  · rfl
  · cases tn with
    | purchaseOrders =>
      have hj : j ≠ id := fun h => hk (by rw [h])
      show OrderPart.order _ _ = .order _ _
      simp only [setStatus, Table.get?_modify_of_ne hj]
      rfl
    | _ => rfl

theorem setStatus_frame {own : List Key} {id : ID} (status : ℤ) (hown : orderKey id ∈ own) :
    (lifecycleGuard initial).Frame own (setStatus id status) := by
  refine .of_part hown
    (fun part => match part with
      | .order old n => .order (old.map fun _ => status) n
      | part => part)
    (fun x => lifecyclePart_setStatus_self id status)
    fun k hk x => lifecyclePart_setStatus_of_ne id status hk

theorem lifecyclePart_storeOrder_self (row : PurchaseOrder) :
    lifecyclePart (storeOrder row db) (orderKey row.id) =
      .order (((db.purchaseOrders.get? row.id).map PurchaseOrder.status).or (some row.status))
        (db.receiptCount row.id) := by
  show OrderPart.order _ _ = _
  cases h : db.purchaseOrders.get? row.id with
  | none =>
    rw [storeOrder, Table.get?_insert_self h]
    rfl
  | some r =>
    rw [storeOrder, Table.get?_insert_of_some h]
    rfl

theorem lifecyclePart_storeOrder_of_ne (row : PurchaseOrder) {k : Key} (hk : k ≠ orderKey row.id) :
    lifecyclePart (storeOrder row db) k = lifecyclePart db k := by
  rcases k with _ | ⟨tn, j⟩
  · rfl
  · cases tn with
    | purchaseOrders =>
      have hj : row.id ≠ j := fun h => hk (by rw [h])
      show OrderPart.order _ _ = .order _ _
      rw [storeOrder, Table.get?_insert_of_ne hj]
      rfl
    | _ => rfl

theorem storeOrder_frame {own : List Key} {row : PurchaseOrder} (hown : orderKey row.id ∈ own) :
    (lifecycleGuard initial).Frame own (storeOrder row) := by
  refine .of_part hown
    (fun part => match part with
      | .order old n => .order (old.or (some row.status)) n
      | part => part)
    (fun x => lifecyclePart_storeOrder_self row)
    fun k hk x => lifecyclePart_storeOrder_of_ne row hk

/-- Other rows are as they were. -/
theorem holds_storeOrder (row : PurchaseOrder) {k : Key} {tr : List (Event OrderRequest Answer)}
    (hk : k ≠ orderKey row.id) (h : (lifecycleGuard initial).Holds k db tr) :
    (lifecycleGuard initial).Holds k (storeOrder row db) tr := by
  unfold Guard.Holds at h ⊢
  rw [lifecycleGuard_proj, lifecyclePart_storeOrder_of_ne row hk]
  exact h

/-- The header of a receipt is stored. -/
def storeReceipt (row : PurchaseReceipt) (db : Db) : Db :=
  { db with purchaseReceipts := db.purchaseReceipts.insert row }

theorem lifecyclePart_storeReceipt_order (row : PurchaseReceipt) :
    lifecyclePart (storeReceipt row db) (orderKey row.orderId) =
      .order ((db.purchaseOrders.get? row.orderId).map PurchaseOrder.status)
        (db.receiptCount row.orderId + if db.purchaseReceipts.has row.id then 0 else 1) := by
  show OrderPart.order _ _ = _
  simp [storeReceipt, Db.receiptCount, Table.tally_insert_eq]

theorem lifecyclePart_storeReceipt_self (row : PurchaseReceipt) :
    lifecyclePart (storeReceipt row db) (.row .purchaseReceipts row.id) = .receipt true := by
  show OrderPart.receipt _ = _
  simp [storeReceipt, Table.has_insert]

theorem lifecyclePart_storeReceipt_of_ne (row : PurchaseReceipt) {k : Key}
    (hk : k ≠ orderKey row.orderId) (hk' : k ≠ .row .purchaseReceipts row.id) :
    lifecyclePart (storeReceipt row db) k = lifecyclePart db k := by
  rcases k with _ | ⟨tn, j⟩
  · rfl
  · cases tn with
    | purchaseOrders =>
      have hj : ¬ row.orderId = j := fun h => hk (by rw [h])
      show OrderPart.order _ _ = .order _ _
      simp [storeReceipt, Db.receiptCount, Table.tally_insert_eq, hj]
    | purchaseReceipts =>
      have hj : row.id ≠ j := fun h => hk' (by rw [h])
      show OrderPart.receipt _ = .receipt _
      simp [storeReceipt, Table.has_insert, hj]
    | _ => rfl

theorem storeReceipt_frame {own : List Key} {row : PurchaseReceipt}
    (horder : orderKey row.orderId ∈ own) (hreceipt : .row .purchaseReceipts row.id ∈ own) :
    (lifecycleGuard initial).Frame own (storeReceipt row) := by
  refine .of_two_parts horder hreceipt
    (fun part part' => match part, part' with
      | .order status n, .receipt present => .order status (n + if present then 0 else 1)
      | part, _ => part)
    (fun _ _ => .receipt true) (fun x => lifecyclePart_storeReceipt_order row)
    (fun x => lifecyclePart_storeReceipt_self row)
    fun k hk hk' x => lifecyclePart_storeReceipt_of_ne row hk hk'

/-- Other rows are as they have to be: a receipt's row guards nothing that could break. -/
theorem holds_storeReceipt (row : PurchaseReceipt) {k : Key}
    {tr : List (Event OrderRequest Answer)} (hk : k ≠ orderKey row.orderId)
    (h : (lifecycleGuard initial).Holds k db tr) :
    (lifecycleGuard initial).Holds k (storeReceipt row db) tr := by
  by_cases hk' : k = .row .purchaseReceipts row.id
  · subst hk'
    exact trivial
  · unfold Guard.Holds at h ⊢
    rw [lifecycleGuard_proj, lifecyclePart_storeReceipt_of_ne row hk hk']
    exact h

/-- A receipt changes no status. -/
theorem moves_storeReceipt (row : PurchaseReceipt) {tr : List (Event OrderRequest Answer)}
    (k : Key) : (lifecycleGuard initial).moves k ((lifecycleGuard initial).state k db tr)
      ((lifecycleGuard initial).state k (storeReceipt row db) tr) := by
  have hstatus :
      (lifecyclePart (storeReceipt row db) k).status? = (lifecyclePart db k).status? := by
    rcases k with _ | ⟨tn, j⟩
    · rfl
    · cases tn <;> rfl
  exact fun status hs => ⟨status, hstatus.trans hs, fun h => h⟩

end Writes

/-! ## Requests among others -/

section Safety

variable {r : OrderRequest} {own : List Key} {v : Db} {tr : List (Event OrderRequest Answer)}

/-- The transaction has locked the order, which has the status `status` and `n` receipts. -/
abbrev Locked (initial : Db) (id : ID) (status n : ℤ) (log : List (Event OrderRequest Answer)) :
    List Key → Db → List (Event OrderRequest Answer) → Prop :=
  (lifecycleGuard initial).Knows (orderKey id) (.order (some status) n, log)

theorem status_of_locked {id : ID} {status n : ℤ} {log : List (Event OrderRequest Answer)}
    (h : Locked initial id status n log own v tr) :
    ∃ o, v.purchaseOrders.get? id = some o ∧ o.status = status := by
  have hpart := (OrderPart.order.inj h.part_eq).1
  obtain ⟨o, ho, hstatus⟩ := Option.map_eq_some_iff.mp hpart
  exact ⟨o, ho, hstatus⟩

theorem lockOrder_safe (id : ID) (v : Db) (tr : List (Event OrderRequest Answer)) :
    (lifecycleGuard initial).Safe r
      (fun o own v tr => ∃ n log, Locked initial id o.status n log own v tr ∧
        OrderPart.Lives (initial.statusOr id) (initial.receiptCount id)
          (.order (some o.status) n) log)
      (lockOrder id) [] v tr := by
  refine Guard.Safe.selectForUpdate_bind fun v₁ tr₁ hr₁ => ?_
  cases ho : v₁.purchaseOrders.get? id with
  | none => exact trivial
  | some o =>
    have hhas : v₁.purchaseOrders.has id = true := Table.has_iff.mpr ⟨o, ho⟩
    rw [hhas]
    have hstate : (lifecycleGuard initial).state (orderKey id) v₁ tr₁ =
        (.order (some o.status) (v₁.receiptCount id),
          (lifecycleGuard initial).log (orderKey id) tr₁) := by
      simp [Guard.state, lifecyclePart, ho]
    have h := Guard.Knows.lock (fun k hk => absurd hk List.not_mem_nil) hr₁
      (List.mem_singleton_self (orderKey id))
    have hlives := hr₁.rest (orderKey id) List.not_mem_nil
    obtain ⟨hpart, -⟩ := Prod.mk.inj hstate
    unfold Guard.Holds at hlives
    rw [hpart] at hlives
    rw [hstate] at h
    exact Guard.Safe.ret fun v₂ tr₂ hr₂ => ⟨_, _, h.rely hr₂, hlives⟩

/-- Locked once more, the order is as it was. -/
theorem lockStatus_safe {id : ID} {status n : ℤ} {log : List (Event OrderRequest Answer)}
    (h : Locked initial id status n log own v tr) :
    (lifecycleGuard initial).Safe r
      (fun found own v tr => found = status ∧ Locked initial id status n log own v tr)
      (lockStatus id) own v tr := by
  refine Guard.Safe.bind (Guard.Safe.selectForUpdate_bind fun v₁ tr₁ hr₁ => ?_)
  have h₁ := h.grow hr₁ (lockRow .purchaseOrders id (v₁.purchaseOrders.has id))
  obtain ⟨o, ho, hstatus⟩ := status_of_locked h₁
  rw [ho]
  refine Guard.Safe.ret fun v₂ tr₂ hr₂ => Guard.Safe.ret fun v₃ tr₃ hr₃ => ?_
  exact ⟨hstatus, (h₁.rely hr₂).rely hr₃⟩

theorem updateStatus_safe {id : ID} {status new n : ℤ} {log : List (Event OrderRequest Answer)}
    (h : Locked initial id status n log own v tr)
    (hnew : status = PurchaseOrderStatus.approved.toI16 →
      new = PurchaseOrderStatus.approved.toI16) :
    (lifecycleGuard initial).Safe r (fun _ => Locked initial id new n log) (updateStatus id new)
      own v tr := by
  refine Guard.Safe.stmt_wait fun v₁ tr₁ hr₁ _ => ?_
  have h₁ := h.grow hr₁ (lockRow .purchaseOrders id (v₁.purchaseOrders.has id))
  have hpart : lifecyclePart v₁ (orderKey id) = .order (some status) n := h₁.part_eq
  have hself : lifecyclePart (setStatus id new v₁) (orderKey id) = .order (some new) n := by
    obtain ⟨hstatus, hn⟩ := OrderPart.order.inj hpart
    rw [lifecyclePart_setStatus_self, hstatus, hn]
    rfl
  refine ⟨⟨setStatus_frame new h₁.mem, fun k hk => ?_⟩, ?_⟩
  · by_cases hne : k = orderKey id
    · rintro old hold
      rw [hne] at hold ⊢
      refine ⟨new, congrArg OrderPart.status? hself, fun happroved => hnew ?_⟩
      have hstatus := (congrArg OrderPart.status? hpart).symm.trans hold
      rw [← happroved]
      exact Option.some.inj hstatus
    · refine Guard.moves_of_eq ?_
      rw [Guard.state, Guard.state, lifecycleGuard_proj, lifecyclePart_setStatus_of_ne id new hne]
      rfl
  · refine Guard.Safe.ret fun v₂ tr₂ hr₂ => (h₁.write hself fun k _ hne hk => ?_).rely hr₂
    unfold Guard.Holds at hk ⊢
    rw [lifecycleGuard_proj, lifecyclePart_setStatus_of_ne id new hne]
    exact hk

/-- A request that has made of the status what it may make of it, and has counted its receipt, may
commit. -/
theorem Locked.done {id : ID} {status new n : ℤ} {log : List (Event OrderRequest Answer)}
    (h : Locked initial id new (n + if r.isReceipt then 1 else 0) log own v tr)
    (hlives : OrderPart.Lives (initial.statusOr id) (initial.receiptCount id)
      (.order (some status) n) log)
    (hr : r.order? = some id) (hnext : r.next status = some new) :
    (lifecycleGuard initial).Done r own v tr := by
  obtain ⟨hreplay, hcount, happroved⟩ := hlives
  have hlog : (lifecycleGuard initial).log (orderKey id) [.committed r] = [.committed r] := by
    rw [lifecycleGuard_log, if_pos hr]
  refine Guard.Knows.done h (fun k hk => ?_) ?_ ?_
  · obtain ⟨j, rfl, hj⟩ := lifecycleGuard_about hk
    rw [Option.some.inj (hj.symm.trans hr)]
  · rw [hlog]
    refine ⟨?_, ?_, fun hpos => ?_⟩
    · rw [replay_append, hreplay]
      show (r.next status).bind _ = _
      rw [hnext]
      rfl
    · rw [receiptsIn_append]
      simp only [receiptsIn]
      omega
    · cases hreceipt : r.isReceipt with
      | true => exact (OrderRequest.next_of_isReceipt hreceipt hnext).2
      | false =>
        rw [hreceipt] at hpos
        rw [happroved (by simpa using hpos)] at hnext
        exact OrderRequest.next_approved hnext
  · exact fun s hs => ⟨s, hs, fun h => h⟩

/-- What comes after the writes leaves the orders alone. -/
theorem recordAfter_neutral (ctx : Operator) (id : ID) (before : PurchaseOrder) (newStatus : ℤ) :
    (lifecycleGuard initial).Neutral (do
      let row ← Prog.select fun db => db.purchaseOrders.get? id
      let after ← Prog.orFail row (.sql .rowNotFound)
      AuditService.recordUpdated "purchase_order" id ctx (.purchaseOrder before)
        (.purchaseOrder after)
      pure newStatus) := by
  refine lifecycleGuard_neutral ((Prog.preserves_select _).bind fun row => ?_)
  refine (Prog.preserves_orFail _ _).bind fun after => ?_
  refine Prog.Preserves.bind ?_ fun _ => Prog.preserves_ret _
  exact (AuditService.record_preserves _ _ _ _ _ _).factor (by intro _; rfl)

/-- A request that changes the status by a rule of the flow. -/
theorem changeStatus_safe {id : ID} {rule : ℤ → Except AppError ℤ} (hr : r.order? = some id)
    (hkind : r.isReceipt = false) (hnext : ∀ status, r.next status = (rule status).toOption)
    (ctx : Operator) (v : Db) (tr : List (Event OrderRequest Answer)) :
    (lifecycleGuard initial).Safe r (fun _ => (lifecycleGuard initial).Done r)
      (changeStatus ctx id (transition id rule)) [] v tr := by
  refine Guard.Safe.bind ((lockOrder_safe id v tr).mono ?_)
  rintro before own₁ v₁ tr₁ ⟨n, log, h₁, hlives⟩
  refine Guard.Safe.bind (Guard.Safe.bind ((lockStatus_safe h₁).mono ?_))
  rintro _ own₂ v₂ tr₂ ⟨rfl, h₂⟩
  refine Guard.Safe.ofExcept_bind fun new hnew => ?_
  have hnext' : r.next before.status = some new := by
    rw [hnext, hnew]
    rfl
  refine Guard.Safe.bind ((updateStatus_safe h₂ fun happroved => ?_).mono ?_)
  · rw [happroved] at hnext'
    exact OrderRequest.next_approved hnext'
  · rintro - own₃ v₃ tr₃ h₃
    refine Guard.Safe.ret fun v₄ tr₄ hr₄ => ?_
    refine ((h₃.rely hr₄).neutral (recordAfter_neutral ctx id before new)).mono ?_
    rintro _ own₅ v₅ tr₅ ⟨-, h₅⟩
    refine Locked.done ?_ hlives hr hnext'
    rwa [hkind, if_neg Bool.false_ne_true, add_zero]

/-- The deletion of a draft. -/
theorem delete_safe (ctx : Operator) (id : ID) (v : Db) (tr : List (Event OrderRequest Answer)) :
    (lifecycleGuard initial).Safe (.delete ctx id)
      (fun _ => (lifecycleGuard initial).Done (.delete ctx id))
      (PurchaseOrderDelete.execute ctx id) [] v tr := by
  refine Guard.Safe.bind ((lockOrder_safe id v tr).mono ?_)
  rintro before own₁ v₁ tr₁ ⟨n, log, h₁, hlives⟩
  refine Guard.Safe.ensure_bind fun hdraft => ?_
  have hdraft : before.status = PurchaseOrderStatus.draft.toI16 := of_decide_eq_true hdraft
  refine Guard.Safe.bind ((updateStatus_safe h₁ fun happroved => ?_).mono ?_)
  · rw [hdraft] at happroved
    cases happroved
  · rintro - own₂ v₂ tr₂ h₂
    have hneutral : (lifecycleGuard initial).Neutral
        (AuditService.recordDeleted "purchase_order" id ctx (.purchaseOrder before)) :=
      lifecycleGuard_neutral
        ((AuditService.record_preserves _ _ _ _ _ _).factor (by intro _; rfl))
    refine Guard.Safe.bind ((h₂.neutral hneutral).mono ?_)
    rintro - own₃ v₃ tr₃ ⟨-, h₃⟩
    refine Guard.Safe.ret fun v₄ tr₄ hr₄ => ?_
    have hkind : (OrderRequest.delete ctx id).isReceipt = false := rfl
    have h₄ : Locked initial id PurchaseOrderStatus.deleted.toI16
        (n + if (OrderRequest.delete ctx id).isReceipt then 1 else 0) log own₃ v₄ tr₄ := by
      rw [hkind, if_neg Bool.false_ne_true, add_zero]
      exact h₃.rely hr₄
    refine h₄.done hlives rfl ?_
    rw [OrderRequest.next, if_pos hdraft]


open PurchaseOrderCreate in
theorem lineIds_preserves {τ : Type} (f : Db → τ) (lines : List CreateOrderLine) :
    (lineIds lines).Preserves f := by
  induction lines with
  | nil => exact Prog.preserves_ret _
  | cons line lines ih =>
    exact (Prog.preserves_ask _).bind fun _ => ih.bind fun _ => Prog.preserves_ret _

/-- The lines of an order and its audit row leave the orders alone. -/
theorem createRest_neutral (ctx : Operator) (id : ID) (code : String)
    (lines : List ((ID × PurchaseOrderCreate.CreateOrderLine) × ℕ)) :
    (lifecycleGuard initial).Neutral (do
      Prog.forEach lines (PurchaseOrderCreate.insertLine id)
      PurchaseOrderCreate.recordOrder ctx id
      pure ({ id := id, code := code } : PurchaseOrderCreate.CreatePurchaseOrderResponse)) := by
  refine lifecycleGuard_neutral (Prog.Preserves.bind ?_ fun _ => ?_)
  · exact Prog.preserves_forEach fun line _ => Prog.preserves_insert (by intro _; rfl)
  · refine Prog.Preserves.bind ?_ fun _ => Prog.preserves_ret _
    refine (Prog.preserves_select _).bind fun row => ?_
    refine (Prog.preserves_orFail _ _).bind fun order => ?_
    exact (AuditService.record_preserves _ _ _ _ _ _).factor (by intro _; rfl)

/-- A new order is a draft without receipts. -/
theorem create_safe (ctx : Operator) (request : PurchaseOrderCreate.CreatePurchaseOrderRequest)
    (v : Db) (tr : List (Event OrderRequest Answer)) :
    (lifecycleGuard initial).Safe (.create ctx request)
      (fun _ => (lifecycleGuard initial).Done (.create ctx request))
      (PurchaseOrderCreate.execute ctx request) [] v tr := by
  refine Guard.Safe.ensure_bind fun _ => Guard.Safe.ask_bind fun v₁ tr₁ hr₁ => ?_
  refine ⟨trivial, fun id => ?_⟩
  refine ⟨Guard.Hears.of_none (lifecycleGuard_called _ _), ?_⟩
  have hcode : (lifecycleGuard initial).Neutral
      (DocNumberer.nextNumber "seq_purchase_order" "PO") :=
    lifecycleGuard_neutral (DocNumberer.nextNumber_preserves _ _ _)
  refine Guard.Safe.bind ((hcode.holds_safe fun k hk => absurd hk List.not_mem_nil).mono ?_)
  intro code own₂ v₂ tr₂ hown₂
  refine Guard.Safe.bind
    (((lifecycleGuard_neutral (lineIds_preserves _ _)).holds_safe hown₂).mono ?_)
  intro lines own₃ v₃ tr₃ hown₃
  refine Guard.Safe.insert_bind fun v₄ tr₄ hr₄ hfresh => ?_
  have hnone : v₄.purchaseOrders.get? id = none :=
    Table.has_eq_false.mp (unique_eq_none.mp hfresh)
  set row : PurchaseOrder :=
    { id := id, supplierId := request.supplierId, status := 0
      totalAmount := PurchaseOrderCreate.totalAmount request.lines }
  -- the order is not there yet, so nothing has been recorded about it
  have hlives : OrderPart.Lives (initial.statusOr id) (initial.receiptCount id)
      (.order none (v₄.receiptCount id)) ((lifecycleGuard initial).log (orderKey id) tr₄) := by
    have h := hr₄.holds hown₃ (orderKey id)
    unfold Guard.Holds at h
    rw [lifecycleGuard_proj, lifecyclePart, hnone] at h
    exact h
  obtain ⟨hcount, hlog, hstatus₀, hcount₀⟩ := hlives
  have hself : lifecyclePart (storeOrder row v₄) (orderKey id) = .order (some 0) 0 := by
    rw [lifecyclePart_storeOrder_self row, hnone, hcount]
    rfl
  have h₄ := (Guard.Knows.lock hown₃ hr₄ (List.mem_singleton_self (orderKey id))).write hself
    fun k _ hne hk => holds_storeOrder row hne hk
  refine ⟨⟨storeOrder_frame h₄.mem, fun k hk => ?_⟩, ?_⟩
  · by_cases hne : k = orderKey id
    · rintro old hold
      rw [hne] at hold
      simp [Guard.state, lifecyclePart, hnone, OrderPart.status?] at hold
    · refine Guard.moves_of_eq ?_
      rw [Guard.state, Guard.state, lifecycleGuard_proj, lifecyclePart_storeOrder_of_ne row hne]
      rfl
  · refine (h₄.neutral (createRest_neutral ctx id code lines.zipIdx)).mono ?_
    rintro _ own₅ v₅ tr₅ ⟨-, h₅⟩
    refine h₅.done (fun k hk => ?_) ?_ ?_
    · obtain ⟨j, -, hj⟩ := lifecycleGuard_about hk
      cases hj
    · rw [lifecycleGuard_log, if_neg (by simp [OrderRequest.order?]), List.append_nil]
      refine ⟨?_, ?_, fun h => absurd h (lt_irrefl 0)⟩
      · rw [hstatus₀, Guard.state, hlog]
        rfl
      · rw [hcount₀, Guard.state, hlog]
        rfl
    · exact fun s hs => ⟨s, hs, fun h => h⟩

open PurchaseReceiptCreate in
/-- The lines of a receipt and its audit row leave orders and receipts alone. -/
theorem receiptRest_neutral (ctx : Operator) (request : CreateReceiptRequest)
    (response : CreateReceiptResponse) :
    (lifecycleGuard initial).Neutral (do
      Prog.forEach request.lines (receiveLine .i64 request.orderId response.id)
      recordHeader ctx response.id
      pure response) := by
  refine lifecycleGuard_neutral (Prog.Preserves.bind ?_ fun _ => ?_)
  · refine Prog.preserves_forEach fun line _ => (Prog.preserves_ask _).bind fun lineId => ?_
    refine (Prog.preserves_selectForUpdate _ _).bind fun found => ?_
    refine (Prog.preserves_orFail _ _).bind fun ol => (Prog.preserves_ensure _ _).bind fun _ => ?_
    refine (Prog.preserves_insert (by intro _; rfl)).bind fun _ => ?_
    refine (Prog.preserves_update (by intro _; rfl)).bind fun _ => ?_
    refine Prog.Preserves.bind ?_ fun _ => Prog.Preserves.bind ?_ fun _ => Prog.preserves_ret _
    · exact (InventoryLedger.receive_preserves _).factor (by intro _; rfl)
    · exact (CostCalculator.recalcWeightedAverage_preserves _ _ _ _).factor (by intro _; rfl)
  · refine Prog.Preserves.bind ?_ fun _ => Prog.preserves_ret _
    exact (recordHeader_preserves ctx response.id).factor (by intro _; rfl)

open PurchaseReceiptCreate in
/-- The header of a receipt, from the lock of its order on. -/
theorem createHeader_eq (request : CreateReceiptRequest) :
    createHeader request = (do
      let order ← lockOrder request.orderId
      Prog.ensure (order.status = PurchaseOrderStatus.approved.toI16) (.purchase .orderNotApproved)
      let code ← DocNumberer.nextNumber "seq_purchase_receipt" "RCV"
      let receiptDate ← receiptDateOrToday request.receiptDate
      let receiptId ← ask .newId
      insertRow .purchaseReceipts receiptId (fun db => db.purchaseReceipts.has receiptId)
        (storeReceipt {
          id := receiptId, code := code, orderId := request.orderId
          supplierId := order.supplierId, receiptDate := receiptDate
          status := PurchaseReceiptStatus.posted.toI16, remark := request.remark })
      pure { id := receiptId, code := code }) := rfl

/-- A receipt locks its order for as long as it lasts, and adds one receipt to it. -/
theorem receipt_safe (ctx : Operator) (request : PurchaseReceiptCreate.CreateReceiptRequest)
    (v : Db) (tr : List (Event OrderRequest Answer)) :
    (lifecycleGuard initial).Safe (.receipt ctx request)
      (fun _ => (lifecycleGuard initial).Done (.receipt ctx request))
      (PurchaseReceiptCreate.execute .i64 ctx request) [] v tr := by
  refine Guard.Safe.bind ?_
  rw [createHeader_eq]
  refine Guard.Safe.bind ((lockOrder_safe request.orderId v tr).mono ?_)
  rintro order own₁ v₁ tr₁ ⟨n, log, h₁, hlives⟩
  refine Guard.Safe.ensure_bind fun happroved => ?_
  have happroved : order.status = PurchaseOrderStatus.approved.toI16 := of_decide_eq_true happroved
  have hcode : (lifecycleGuard initial).Neutral
      (DocNumberer.nextNumber "seq_purchase_receipt" "RCV") :=
    lifecycleGuard_neutral (DocNumberer.nextNumber_preserves _ _ _)
  refine Guard.Safe.bind ((h₁.neutral hcode).mono ?_)
  rintro code own₂ v₂ tr₂ ⟨-, h₂⟩
  have hdate : (lifecycleGuard initial).Neutral
      (PurchaseReceiptCreate.receiptDateOrToday request.receiptDate) :=
    lifecycleGuard_neutral (PurchaseReceiptCreate.receiptDateOrToday_preserves _ _)
  refine Guard.Safe.bind ((h₂.neutral hdate).mono ?_)
  rintro date own₃ v₃ tr₃ ⟨-, h₃⟩
  refine Guard.Safe.ask_bind fun v₄ tr₄ hr₄ => ⟨trivial, fun id => ?_⟩
  refine ⟨Guard.Hears.of_none (lifecycleGuard_called _ _), ?_⟩
  have h₄ := (h₃.rely hr₄).heard (lifecycleGuard_called .newId id)
  refine Guard.Safe.insert_bind fun v₅ tr₅ hr₅ hfresh => ?_
  set row : PurchaseReceipt := {
    id := id, code := code, orderId := request.orderId, supplierId := order.supplierId
    receiptDate := date, status := PurchaseReceiptStatus.posted.toI16, remark := request.remark }
  have h₅ := h₄.grow hr₅ [.row .purchaseReceipts id]
  have hself : lifecyclePart (storeReceipt row v₅) (orderKey request.orderId) =
      .order (some order.status) (n + 1) := by
    obtain ⟨hstatus, hcount⟩ := OrderPart.order.inj h₅.part_eq
    have hnew : v₅.purchaseReceipts.has row.id = false := unique_eq_none.mp hfresh
    rw [lifecyclePart_storeReceipt_order row, hstatus, hcount, hnew]
    rfl
  have hother : ∀ k, k ≠ orderKey request.orderId → (lifecycleGuard initial).Holds k v₅ tr₅ →
      (lifecycleGuard initial).Holds k (storeReceipt row v₅) tr₅ :=
    fun k hne hk => holds_storeReceipt row hne hk
  refine ⟨⟨storeReceipt_frame h₅.mem (by simp [row]), fun k _ => ?_⟩, ?_⟩
  · exact moves_storeReceipt row k
  · have h₆ := h₅.write hself fun k _ hne hk => hother k hne hk
    refine Guard.Safe.ret fun v₇ tr₇ hr₇ => ?_
    refine ((h₆.rely hr₇).neutral (receiptRest_neutral ctx request _)).mono ?_
    rintro _ own₈ v₈ tr₈ ⟨-, h₈⟩
    refine Locked.done h₈ hlives rfl ?_
    rw [OrderRequest.next, if_pos happroved, happroved]

end Safety

/-! ## Runs -/

/-- Every request keeps the guard. -/
theorem order_safe (r : OrderRequest) (v : Db) (tr : List (Event OrderRequest Answer)) :
    (lifecycleGuard initial).Safe r (fun _ => (lifecycleGuard initial).Done r) r.run [] v tr := by
  cases r with
  | create ctx request => exact (create_safe ctx request v tr).returning
  | submit ctx id =>
    have h : (lifecycleGuard initial).Safe (.submit ctx id)
        (fun _ => (lifecycleGuard initial).Done (.submit ctx id))
        (changeStatus ctx id (transition id poFlow.submitStatus)) [] v tr :=
      changeStatus_safe rfl rfl (fun _ => rfl) ctx v tr
    exact h.returning.returning
  | approve ctx id =>
    have h : (lifecycleGuard initial).Safe (.approve ctx id)
        (fun _ => (lifecycleGuard initial).Done (.approve ctx id))
        (changeStatus ctx id (transition id poFlow.approveStatus)) [] v tr :=
      changeStatus_safe rfl rfl (fun _ => rfl) ctx v tr
    exact h.returning.returning
  | reject ctx id =>
    have h : (lifecycleGuard initial).Safe (.reject ctx id)
        (fun _ => (lifecycleGuard initial).Done (.reject ctx id))
        (changeStatus ctx id (transition id poFlow.rejectStatus)) [] v tr :=
      changeStatus_safe rfl rfl (fun _ => rfl) ctx v tr
    exact h.returning.returning
  | delete ctx id => exact (delete_safe ctx id v tr).returning
  | receipt ctx request => exact (receipt_safe ctx request v tr).returning

/-- Every receipt is of an approved order. -/
def Db.ReceiptsApproved (db : Db) : Prop :=
  ∀ receipt ∈ db.purchaseReceipts.rows, ∃ o, db.purchaseOrders.get? receipt.orderId = some o ∧
    o.status = PurchaseOrderStatus.approved.toI16

theorem receiptCount_pos {db : Db} {id : ID} :
    0 < db.receiptCount id ↔ ∃ receipt ∈ db.purchaseReceipts.rows, receipt.orderId = id := by
  have hcount : db.receiptCount id =
      (db.purchaseReceipts.rows.filter fun r => r.orderId = id).length := by
    simp [Db.receiptCount, Table.tally]
  rw [hcount, Int.natCast_pos, List.length_pos_iff_exists_mem]
  simp only [List.mem_filter, decide_eq_true_eq]

theorem lifecycleGuard_init {initial : Db} (hinit : initial.ReceiptsApproved) (k : Key) :
    (lifecycleGuard initial).Holds k initial [] := by
  rcases k with _ | ⟨tn, id⟩
  · exact trivial
  · cases tn with
    | purchaseOrders =>
      show OrderPart.Lives _ _ (.order _ _) []
      cases ho : initial.purchaseOrders.get? id with
      | none =>
        have hcount : initial.receiptCount id = 0 := by
          have hnonneg : 0 ≤ initial.receiptCount id := by simp [Db.receiptCount, Table.tally]
          by_contra hne
          have hpos : 0 < initial.receiptCount id := by omega
          obtain ⟨receipt, hmem, rfl⟩ := receiptCount_pos.mp hpos
          obtain ⟨o, ho', -⟩ := hinit receipt hmem
          rw [ho] at ho'
          cases ho'
        exact ⟨hcount, rfl, by rw [Db.statusOr, ho]; rfl, hcount⟩
      | some o =>
        refine ⟨by rw [Db.statusOr, ho]; rfl, by rw [receiptsIn, add_zero], fun hpos => ?_⟩
        obtain ⟨receipt, hmem, rfl⟩ := receiptCount_pos.mp hpos
        obtain ⟨o', ho', happroved⟩ := hinit receipt hmem
        rw [← Option.some.inj (ho.symm.trans ho')] at happroved
        exact happroved
    | _ => exact trivial

section Lifecycle

variable {c d : Config Db Key Answer AppError Unit OrderRequest} {a : Action OrderRequest Answer}

/-- What the guard says of an order in a configuration. -/
theorem order_lives (h : (lifecycleGuard initial).Sound c) (id : ID) :
    OrderPart.Lives (initial.statusOr id) (initial.receiptCount id)
      (.order ((c.db.purchaseOrders.get? id).map PurchaseOrder.status) (c.db.receiptCount id))
      ((lifecycleGuard initial).log (orderKey id) c.trace) :=
  h.holds (orderKey id)

theorem receiptsApproved_of_sound (h : (lifecycleGuard initial).Sound c) :
    c.db.ReceiptsApproved := by
  intro receipt hmem
  have hpos : 0 < c.db.receiptCount receipt.orderId := receiptCount_pos.mpr ⟨receipt, hmem, rfl⟩
  have hlives := order_lives h receipt.orderId
  cases ho : c.db.purchaseOrders.get? receipt.orderId with
  | none =>
    rw [ho] at hlives
    have := hlives.1
    omega
  | some o =>
    rw [ho] at hlives
    exact ⟨o, rfl, hlives.2.2 hpos⟩

variable (initial) in
/-- What a step records about an order: nothing, or the request that commits. -/
theorem log_step (hcalls : ∀ i s, c.session? i = some s → ∀ e ∈ s.calls, e.IsCall)
    (hact : c.act OrderRequest.run a = some d) (id : ID) :
    d.db = c.db ∨ ∃ r, c.Commits a r ∧ (lifecycleGuard initial).log (orderKey id) d.trace =
      (lifecycleGuard initial).log (orderKey id) c.trace ++
        if r.order? = some id then [.committed r] else [] := by
  rcases (Step.of_act hact).db_eq with h | ⟨i, ans, s, x, rfl, hs, hp, rfl⟩
  · exact .inl h
  · refine .inr ⟨s.request, ⟨i, ans, s, x, rfl, hs, hp, rfl⟩, ?_⟩
    rw [Guard.log_commit (fun q a => lifecycleGuard_called q a _) (hcalls i s hs),
      lifecycleGuard_log]

/-- A status changes as the flow says, by the request that commits. -/
theorem status_step (hc : (lifecycleGuard initial).Sound c) (hd : (lifecycleGuard initial).Sound d)
    (hcalls : ∀ i s, c.session? i = some s → ∀ e ∈ s.calls, e.IsCall)
    (hact : c.act OrderRequest.run a = some d) {id : ID} {o : PurchaseOrder}
    (ho : c.db.purchaseOrders.get? id = some o) :
    ∃ o', d.db.purchaseOrders.get? id = some o' ∧ (o'.status ≠ o.status →
      ∃ r, c.Commits a r ∧ r.order? = some id ∧ r.next o.status = some o'.status) := by
  obtain ⟨status', hstatus', -⟩ := hc.moves_step (Step.of_act hact) (orderKey id) o.status
    (by simp [Guard.state, lifecyclePart, OrderPart.status?, ho])
  obtain ⟨o', ho', -⟩ := Option.map_eq_some_iff.mp
    (show (d.db.purchaseOrders.get? id).map PurchaseOrder.status = some status' from hstatus')
  refine ⟨o', ho', fun hne => ?_⟩
  have hlc := order_lives hc id
  have hld := order_lives hd id
  rw [ho] at hlc
  rw [ho'] at hld
  rcases log_step initial hcalls hact id with hdb | ⟨r, hr, hlog⟩
  · rw [hdb, ho] at ho'
    exact absurd (congrArg PurchaseOrder.status (Option.some.inj ho')).symm hne
  · have hreplay := hld.1
    rw [hlog, replay_append, hlc.1] at hreplay
    by_cases hid : r.order? = some id
    · refine ⟨r, hr, hid, ?_⟩
      rw [if_pos hid] at hreplay
      obtain ⟨new, hnew, hrest⟩ := Option.bind_eq_some_iff.mp
        (show ((r.next o.status).bind fun status => replay status []) = some o'.status from hreplay)
      rw [hnew]
      exact hrest
    · rw [if_neg hid] at hreplay
      exact absurd (Option.some.inj hreplay).symm hne

/-- A receipt is recorded while its order is approved. -/
theorem receipt_step (hc : (lifecycleGuard initial).Sound c) (hd : (lifecycleGuard initial).Sound d)
    (hcalls : ∀ i s, c.session? i = some s → ∀ e ∈ s.calls, e.IsCall)
    (hact : c.act OrderRequest.run a = some d) {id : ID}
    (hne : d.db.receiptCount id ≠ c.db.receiptCount id) :
    ∃ o o', c.db.purchaseOrders.get? id = some o ∧ d.db.purchaseOrders.get? id = some o' ∧
      o.status = PurchaseOrderStatus.approved.toI16 ∧
      o'.status = PurchaseOrderStatus.approved.toI16 := by
  obtain ⟨hreplay, hcount⟩ := (order_lives hc id).replay
  obtain ⟨hreplay', hcount'⟩ := (order_lives hd id).replay
  rcases log_step initial hcalls hact id with hdb | ⟨r, hr, hlog⟩
  · rw [hdb] at hne
    exact absurd rfl hne
  · rw [hlog, replay_append, hreplay] at hreplay'
    rw [hlog, receiptsIn_append] at hcount'
    by_cases hid : r.order? = some id
    · rw [if_pos hid] at hreplay' hcount'
      -- the number has changed, so the request is a receipt
      have hreceipt : r.isReceipt = true := by
        by_contra hno
        rw [receiptsIn, if_neg hno, receiptsIn] at hcount'
        omega
      rw [Option.bind_some, Slab.replay] at hreplay'
      obtain ⟨new, hnew, hrest⟩ := Option.bind_eq_some_iff.mp hreplay'
      obtain ⟨hold, happroved⟩ := OrderRequest.next_of_isReceipt hreceipt hnew
      rw [happroved] at hrest
      have hgetD : ∀ {status : Option ℤ}, status.getD PurchaseOrderStatus.draft.toI16 =
          PurchaseOrderStatus.approved.toI16 →
            status = some PurchaseOrderStatus.approved.toI16 := by
        intro status h
        cases status with
        | none => cases h
        | some status => exact congrArg some h
      obtain ⟨o, ho, hstatus⟩ := Option.map_eq_some_iff.mp (hgetD hold)
      obtain ⟨o', ho', hstatus'⟩ := Option.map_eq_some_iff.mp (hgetD (Option.some.inj hrest).symm)
      exact ⟨o, o', ho, ho', hstatus, hstatus'⟩
    · rw [if_neg hid] at hcount'
      refine absurd ?_ hne
      rw [hcount, hcount', receiptsIn, add_zero]

/-- Along every run each receipt is of an approved order and is recorded while it is approved; an
order that is approved, such as one with a receipt, stays so; and a status changes by a request
that goes through, as the flow says. -/
theorem lifecycle_of_run {initial : Db} (hinit : initial.ReceiptsApproved)
    {c : Config Db Key Answer AppError Unit OrderRequest}
    (hr : Run OrderRequest.run (fun _ _ => True) (Config.init initial) c) :
    c.db.ReceiptsApproved ∧
    (∀ d, Run OrderRequest.run (fun _ _ => True) c d → ∀ id o,
      c.db.purchaseOrders.get? id = some o → o.status = PurchaseOrderStatus.approved.toI16 →
        ∃ o', d.db.purchaseOrders.get? id = some o' ∧
          o'.status = PurchaseOrderStatus.approved.toI16) ∧
    ∀ a d, c.act OrderRequest.run a = some d → ∀ id,
      (∀ o, c.db.purchaseOrders.get? id = some o →
        ∃ o', d.db.purchaseOrders.get? id = some o' ∧ (o'.status ≠ o.status →
          ∃ r, c.Commits a r ∧ r.order? = some id ∧ r.next o.status = some o'.status)) ∧
      (d.db.receiptCount id ≠ c.db.receiptCount id →
        ∃ o o', c.db.purchaseOrders.get? id = some o ∧ d.db.purchaseOrders.get? id = some o' ∧
          o.status = PurchaseOrderStatus.approved.toI16 ∧
          o'.status = PurchaseOrderStatus.approved.toI16) := by
  have hrun : ∀ r v tr, (∀ k, (lifecycleGuard initial).Holds k v tr) →
      (lifecycleGuard initial).Safe r (fun _ => (lifecycleGuard initial).Done r)
        (OrderRequest.run r) [] v tr := fun r v tr _ => order_safe r v tr
  have hc : (lifecycleGuard initial).Sound c :=
    Guard.Sound.run hrun (fun _ _ _ _ _ _ _ _ => trivial)
      (Guard.Sound.init (lifecycleGuard_init hinit)) hr
  refine ⟨receiptsApproved_of_sound hc, fun d hd id o ho happroved => ?_, fun a d hact id => ?_⟩
  · obtain ⟨status', hstatus', hstays⟩ :=
      hc.moves_run hrun (fun _ _ _ _ _ _ _ _ => trivial) hd (orderKey id) o.status
        (by simp [Guard.state, lifecyclePart, OrderPart.status?, ho])
    obtain ⟨o', ho', rfl⟩ := Option.map_eq_some_iff.mp
      (show (d.db.purchaseOrders.get? id).map PurchaseOrder.status = some status' from hstatus')
    exact ⟨o', ho', hstays happroved⟩
  · have hd : (lifecycleGuard initial).Sound d :=
      hc.step hrun (fun _ _ _ _ _ => trivial) (Step.of_act hact)
    exact ⟨fun o ho => status_step hc hd hr.isCall hact ho,
      fun hne => receipt_step hc hd hr.isCall hact hne⟩

end Lifecycle

/-- An order that waits for the supervisor. -/
def pendingOrder : Db :=
  { Db.empty with
    purchaseOrders := Table.empty.insert
      { id := 1, supplierId := 2, status := PurchaseOrderStatus.pendingSupervisor.toI16 } }

/-- Approval, rejection and receipt at once. -/
def approvedFirst : List (Action OrderRequest Answer) :=
  [.start (.approve ⟨5, none, none⟩ 1), .start (.reject ⟨6, none, none⟩ 1),
    .start (.receipt ⟨7, none, none⟩ ⟨1, some 0, none, []⟩)] ++
    ((List.range 7).map fun n => .step 0 (numbered (100 + n) 0)) ++
    ((List.range 3).map fun n => .step 1 (numbered (200 + n) 0)) ++
    ((List.range 9).map fun n => .step 2 (numbered (300 + n) 0))

/-- The approval is first, so that the rejection fails and the receipt goes through. -/
theorem lifecycle_of_run_approvedFirst :
    ∃ c, Run OrderRequest.run (fun _ _ => True) (Config.init pendingOrder) c ∧
      (c.db.purchaseOrders.get? 1).map PurchaseOrder.status = some 3 ∧
      c.db.receiptCount 1 = 1 ∧ c.db.ReceiptsApproved := by
  have hplay : ((Config.init pendingOrder).play OrderRequest.run (fun _ _ => true)
      approvedFirst).map (fun c => ((c.db.purchaseOrders.get? 1).map PurchaseOrder.status,
        c.db.receiptCount 1)) = some (some 3, 1) := by
    decide +kernel
  obtain ⟨c, hc, hfacts⟩ := Option.map_eq_some_iff.mp hplay
  obtain ⟨hstatus, hcount⟩ := Prod.mk.inj hfacts
  have hrun : Run OrderRequest.run (fun _ _ => True) (Config.init pendingOrder) c :=
    Run.of_play (fun _ _ _ => trivial) .refl hc
  have hinit : pendingOrder.ReceiptsApproved := fun _ h => absurd h List.not_mem_nil
  exact ⟨c, hrun, hstatus, hcount, (lifecycle_of_run hinit hrun).1⟩

end Slab
