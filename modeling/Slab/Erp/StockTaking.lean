import Slab.Erp.InventoryChecks
import Slab.Erp.Requests

/-!
# Stocktaking

An inventory check is created, stock moves, and the check is approved: the approval brings the
stock of each item to the quantity last counted, and what moved in between is taken back.

## Main definitions

- `StockRequest` — the requests that move stock, and those on inventory checks
- `Elapses` — such requests served one after another
- `Check.Stands` — the lines and the warehouse of a check

## Main results

- `StockRequest.stands` — no request changes the lines or the warehouse of a check
- `approve_by_counts` — what an approval does, and when that is the recorded difference
-/

namespace Slab

open Txn

/-! ## Requests -/

inductive StockRequest where
  | move (request : Request)
  | createCheck (ctx : Operator) (request : InventoryCheckCreate.CreateCheckRequest)
  | submitCheck (ctx : Operator) (id : ID)
  | approveCheck (ctx : Operator) (id : ID)

namespace StockRequest

/-- The transaction of a request, its response left out. -/
def run (ar : Arith) : StockRequest → Handler Unit
  | move request => request.run ar
  | createCheck ctx request => do
    let _ ← InventoryCheckCreate.execute ar ctx request
    pure ()
  | submitCheck ctx id => do
    let _ ← InventoryCheckSubmit.execute ctx id
    pure ()
  | approveCheck ctx id => do
    let _ ← InventoryCheckApprove.execute ar ctx id
    pure ()

end StockRequest

/-- Requests served one after another, rejected ones among them. -/
inductive Elapses (ar : Arith) (v : Db) : Db → Prop where
  | refl : Elapses ar v v
  | step {u w : Db} (r : StockRequest) {result : Except AppError Unit} (h : Elapses ar v u)
      (hr : (r.run ar).Transacts u w result) : Elapses ar v w

/-! ## The tables of inventory checks -/

/-- The inventory checks and their lines. -/
def checkTables (db : Db) :
    (Table fun r : InventoryCheck => r.id) × Table fun r : InventoryCheckItem => r.id :=
  (db.inventoryChecks, db.inventoryCheckItems)

namespace Request

variable (ar : Arith)

theorem deliverLine_checks (orderId deliveryId : ID) (line : SalesDeliveryCreate.DeliveryLineInput) :
    (SalesDeliveryCreate.deliverLine ar orderId deliveryId line).Preserves checkTables := by
  refine (Prog.preserves_ask _).bind fun lineId => ?_
  refine (Prog.preserves_selectForUpdate _ _).bind fun found => ?_
  refine (Prog.preserves_orFail _ _).bind fun ol => ?_
  refine (Prog.preserves_ensure _ _).bind fun _ => ?_
  refine (Prog.preserves_insert (by intro _; rfl)).bind fun _ => ?_
  refine (Prog.preserves_update (by intro _; rfl)).bind fun _ => ?_
  exact (InventoryLedger.issue_preserves _).factor (by intro _; rfl)

theorem receiveLine_checks (orderId receiptId : ID) (line : PurchaseReceiptCreate.CreateReceiptLine) :
    (PurchaseReceiptCreate.receiveLine ar orderId receiptId line).Preserves checkTables := by
  refine (Prog.preserves_ask _).bind fun lineId => ?_
  refine (Prog.preserves_selectForUpdate _ _).bind fun found => ?_
  refine (Prog.preserves_orFail _ _).bind fun ol => ?_
  refine (Prog.preserves_ensure _ _).bind fun _ => ?_
  refine (Prog.preserves_insert (by intro _; rfl)).bind fun _ => ?_
  refine (Prog.preserves_update (by intro _; rfl)).bind fun _ => ?_
  refine ((InventoryLedger.receive_preserves _).factor (by intro _; rfl)).bind fun _ => ?_
  refine ((CostCalculator.recalcWeightedAverage_preserves ar _ _ _).factor
    (by intro _; rfl)).bind fun _ => ?_
  exact Prog.preserves_ret _

theorem pickItem_checks (workOrderId : ID) (item : WorkOrderMaterialPick.PickItem) :
    (WorkOrderMaterialPick.pickItem ar workOrderId item).Preserves checkTables := by
  refine (Prog.preserves_selectForUpdate _ _).bind fun found => ?_
  refine (Prog.preserves_orFail _ _).bind fun mat => ?_
  refine (Prog.preserves_ensure _ _).bind fun _ => ?_
  refine (Prog.preserves_update (by intro _; rfl)).bind fun _ => ?_
  exact (InventoryLedger.issue_preserves _).factor (by intro _; rfl)

theorem insertLine_checks (returnId : ID) (line : PurchaseReturnCreate.CreateReturnLine) :
    (PurchaseReturnCreate.insertLine returnId line).Preserves checkTables :=
  (Prog.preserves_ask _).bind fun _ => Prog.preserves_insert (by intro _; rfl)

theorem returnLine_checks (line : PurchaseReturnApprove.JoinedLine) :
    (PurchaseReturnApprove.returnLine ar line).Preserves checkTables := by
  refine ((InventoryLedger.forceIssue_preserves _).factor (by intro _; rfl)).bind fun _ => ?_
  exact Prog.preserves_writeIf (by intro _; rfl)

theorem transferItem_checks (id fromWarehouse toWarehouse : ID) (item : StockTransferItem) :
    (StockTransferApprove.transferItem ar id fromWarehouse toWarehouse item).Preserves
      checkTables := by
  refine ((InventoryLedger.issue_preserves _).factor (by intro _; rfl)).bind fun _ => ?_
  exact (InventoryLedger.receive_preserves _).factor (by intro _; rfl)

/-- The requests that move stock leave the checks alone. -/
theorem run_checks (r : Request) : (r.run ar).Preserves checkTables := by
  cases r with
  | delivery ctx request =>
    refine Prog.Preserves.bind ?_ fun _ => Prog.preserves_ret _
    refine ((SalesDeliveryCreate.createHeader_preserves ctx request).factor
      (by intro _; rfl)).bind fun response => ?_
    refine (Prog.preserves_forEach fun line _ => deliverLine_checks ar _ _ line).bind fun _ => ?_
    exact Prog.preserves_ret _
  | receipt ctx request =>
    refine Prog.Preserves.bind ?_ fun _ => Prog.preserves_ret _
    refine ((PurchaseReceiptCreate.createHeader_preserves request).factor
      (by intro _; rfl)).bind fun response => ?_
    refine (Prog.preserves_forEach fun line _ => receiveLine_checks ar _ _ line).bind fun _ => ?_
    refine ((PurchaseReceiptCreate.recordHeader_preserves ctx _).factor
      (by intro _; rfl)).bind fun _ => ?_
    exact Prog.preserves_ret _
  | pick ctx workOrderId request =>
    refine (WorkOrderMaterialPick.lockReleased_preserves _ _).bind fun before => ?_
    refine (Prog.preserves_forEach fun item _ => pickItem_checks ar _ item).bind fun _ => ?_
    exact (WorkOrderMaterialPick.recordPick_preserves ctx _ before).factor (by intro _; rfl)
  | createReturn ctx request =>
    refine Prog.Preserves.bind ?_ fun _ => Prog.preserves_ret _
    refine ((PurchaseReturnCreate.createHeader_preserves request).factor
      (by intro _; rfl)).bind fun response => ?_
    refine (Prog.preserves_forEach fun line _ => insertLine_checks _ line).bind fun _ => ?_
    refine ((PurchaseReturnCreate.recordHeader_preserves ctx _).factor
      (by intro _; rfl)).bind fun _ => ?_
    exact Prog.preserves_ret _
  | submitReturn id =>
    exact (PurchaseReturnApprove.submitExecute_preserves id).factor (by intro _; rfl)
  | approveReturn ctx id =>
    refine ((PurchaseReturnApprove.approveHeader_preserves ctx id).factor
      (by intro _; rfl)).bind fun _ => ?_
    refine (Prog.preserves_select _).bind fun lines => ?_
    exact Prog.preserves_forEach fun line _ => returnLine_checks ar line
  | approveTransfer ctx id =>
    refine ((Prog.preserves_selectForUpdate _ _).bind fun _ => Prog.preserves_orFail _ _).bind
      fun before => ?_
    refine ((StockTransferApprove.approve_preserves id).factor (by intro _; rfl)).bind
      fun ends => ?_
    refine (Prog.preserves_select _).bind fun lines => ?_
    refine (Prog.preserves_forEach fun item _ => transferItem_checks ar _ _ _ item).bind
      fun _ => ?_
    exact (StockTransferApprove.recordApproval_preserves ctx id before).factor (by intro _; rfl)
  | productionReceipt ctx request =>
    refine Prog.Preserves.bind ?_ fun _ => Prog.preserves_ret _
    refine ((ProductionReceiptCreate.createHeader_preserves request).factor
      (by intro _; rfl)).bind fun header => ?_
    refine ((InventoryLedger.receive_preserves _).factor (by intro _; rfl)).bind fun _ => ?_
    refine ((ProductionReceiptCreate.recordHeader_preserves ctx _).factor
      (by intro _; rfl)).bind fun _ => ?_
    exact Prog.preserves_ret _

end Request

theorem InventoryCheckApprove.adjustItem_checks (ar : Arith) (checkId warehouseId : ID)
    (item : ID × ℤ) :
    (adjustItem ar checkId warehouseId item).Preserves checkTables :=
  (InventoryLedger.adjust_preserves _ _ _ _ _).factor (by intro _; rfl)

/-! ## What a check keeps -/

/-- The warehouse and the lines of a check. -/
structure CheckStands (id warehouse : ID) (lines : List InventoryCheckItem) (db : Db) : Prop where
  header : ∃ r, db.inventoryChecks.get? id = some r ∧ r.warehouseId = warehouse
  lines_eq : db.checkLines id = lines

namespace CheckStands

variable {ar : Arith} {id warehouse : ID} {lines : List InventoryCheckItem} {v w : Db}

theorem congr (h : CheckStands id warehouse lines v) (he : checkTables w = checkTables v) :
    CheckStands id warehouse lines w := by
  obtain ⟨hchecks, hitems⟩ := Prod.mk.inj he
  refine ⟨?_, ?_⟩
  · rw [hchecks]
    exact h.header
  · rw [Db.checkLines, hitems]
    exact h.lines_eq

/-- A change of a check that leaves its warehouse alone. -/
theorem modify (h : CheckStands id warehouse lines v) (k : ID)
    {f : InventoryCheck → InventoryCheck} (hf : ∀ r, (f r).id = r.id)
    (hwarehouse : ∀ r, (f r).warehouseId = r.warehouseId) :
    CheckStands id warehouse lines
      { v with inventoryChecks := v.inventoryChecks.modify k f hf } := by
  obtain ⟨r, hr, hrw⟩ := h.header
  refine ⟨?_, h.lines_eq⟩
  show ∃ r, (v.inventoryChecks.modify k f hf).get? id = some r ∧ _
  rw [Table.get?_modify, hr]
  split
  · exact ⟨f r, rfl, (hwarehouse r).trans hrw⟩
  · exact ⟨r, rfl, hrw⟩

theorem createCheck (h : CheckStands id warehouse lines v) {ctx : Operator}
    {request : InventoryCheckCreate.CreateCheckRequest}
    {response : InventoryCheckCreate.CreateCheckResponse}
    (hr : (InventoryCheckCreate.execute ar ctx request).Runs v w (.ok response)) :
    CheckStands id warehouse lines w := by
  obtain ⟨r, new, hid, -, hfresh, hchecks, hrows, -, hids⟩ := create_runs_ok hr
  obtain ⟨old, hold, hwarehouse⟩ := h.header
  have hne : r.id ≠ id := by
    intro he
    rw [he, hold] at hfresh
    cases hfresh
  refine ⟨⟨old, ?_, hwarehouse⟩, ?_⟩
  · rw [hchecks, Table.get?_insert_of_ne hne, hold]
  · -- the new lines are of another check
    have hnew : new.filter (fun l => l.checkId = id) = [] := by
      refine List.filter_eq_nil_iff.mpr fun l hl hcheck => hne ?_
      rw [hid, ← hids l hl]
      exact of_decide_eq_true hcheck
    rw [Db.checkLines, hrows, List.filter_append, hnew, List.append_nil]
    exact h.lines_eq

theorem submitCheck (h : CheckStands id warehouse lines v) {ctx : Operator} {k : ID}
    {response : CheckActionResponse}
    (hr : (InventoryCheckSubmit.execute ctx k).Runs v w (.ok response)) :
    CheckStands id warehouse lines w := by
  obtain ⟨r, logs, -, -, rfl⟩ := InventoryCheckSubmit.execute_runs_ok hr
  exact (h.modify k (InventoryCheck.setStatus_id 1) fun _ => rfl).congr rfl

theorem approveCheck (h : CheckStands id warehouse lines v) {ctx : Operator} {k : ID}
    {response : CheckActionResponse}
    (hr : (InventoryCheckApprove.execute ar ctx k).Runs v w (.ok response)) :
    CheckStands id warehouse lines w := by
  obtain ⟨r, now, u, logs, -, -, hloop, rfl⟩ := InventoryCheckApprove.execute_runs_ok hr
  have hsame := (Prog.preserves_forEach fun x _ => 
    InventoryCheckApprove.adjustItem_checks ar k r.warehouseId x).runs hloop
  exact (h.modify k (InventoryCheck.approve_id 3 now) fun _ => rfl).congr hsame

end CheckStands

/-- No request changes the lines or the warehouse of a check. -/
theorem StockRequest.stands {ar : Arith} {id warehouse : ID} {lines : List InventoryCheckItem}
    {v w : Db} (r : StockRequest) {result : Except AppError Unit}
    (hr : (r.run ar).Transacts v w result) (h : CheckStands id warehouse lines v) :
    CheckStands id warehouse lines w := by
  cases result with
  | error e =>
    obtain rfl := hr.of_error
    exact h
  | ok x =>
    replace hr := Prog.transacts_ok.mp hr
    cases r with
    | move request => exact h.congr ((request.run_checks ar).runs hr)
    | createCheck ctx request =>
      obtain ⟨response, hr⟩ := Prog.runs_discard hr
      exact h.createCheck hr
    | submitCheck ctx k =>
      obtain ⟨response, hr⟩ := Prog.runs_discard hr
      exact h.submitCheck hr
    | approveCheck ctx k =>
      obtain ⟨response, hr⟩ := Prog.runs_discard hr
      exact h.approveCheck hr

theorem Elapses.stands {ar : Arith} {id warehouse : ID} {lines : List InventoryCheckItem}
    {v w : Db} (h : Elapses ar v w) (hv : CheckStands id warehouse lines v) :
    CheckStands id warehouse lines w := by
  induction h with
  | refl => exact hv
  | step r _ hr ih => exact r.stands hr ih

/-- The database after a list of requests, with the answers of `world` to each. -/
def elapse (ar : Arith) (world : ℕ → (q : Ask) → Answer q) : Db → List StockRequest → Db
  | v, [] => v
  | v, r :: rs => elapse ar (fun n => world (n + 100)) ((r.run ar).transact world v).1 rs

theorem elapses_elapse {ar : Arith} {v u : Db} (world : ℕ → (q : Ask) → Answer q)
    (rs : List StockRequest) (h : Elapses ar v u) : Elapses ar v (elapse ar world u rs) := by
  induction rs generalizing world u with
  | nil => exact h
  | cons r rs ih => exact ih _ (h.step r (Prog.transact_transacts world _ u))

/-! ## A check from its creation to its approval -/

/-- The quantities counted for an item. -/
def InventoryCheckCreate.CreateCheckRequest.counts
    (request : InventoryCheckCreate.CreateCheckRequest) (item : ID) : List ℤ :=
  (request.items.filter fun i => i.itemId = item).map fun i => i.actualQty

section Counting

open InventoryCheckCreate

variable {request : CreateCheckRequest} {id : ID} {book : CheckItemInput → ℤ}

/-- The lines of a check list the quantities counted in the order of its request. -/
theorem counts_eq {lines : List InventoryCheckItem} {items : List CheckItemInput}
    (h : List.Forall₂ (fun item line => ∃ lineId, line =
      checkItem .i64 lineId id (book item) item) items lines) (item : ID) :
    counts item (lines.map fun l => (l.itemId, l.actualQty)) =
      (items.filter fun i => i.itemId = item).map fun i => i.actualQty := by
  induction h with
  | nil => rfl
  | @cons i l items lines hline _ ih =>
    obtain ⟨lineId, rfl⟩ := hline
    rw [List.map_cons, counts_cons, ih, List.filter_cons]
    by_cases hi : i.itemId = item
    · simp [checkItem, hi]
    · simp [checkItem, hi]

theorem mem_of_lines {lines : List InventoryCheckItem} {items : List CheckItemInput}
    (h : List.Forall₂ (fun item line => ∃ lineId, line =
      checkItem .i64 lineId id (book item) item) items lines) {l : InventoryCheckItem}
    (hl : l ∈ lines) :
    ∃ i ∈ items, l.actualQty = i.actualQty ∧ l.diffQty = Arith.i64.sub l.actualQty l.bookQty := by
  induction h with
  | nil => cases hl
  | @cons i l' items lines hline _ ih =>
    obtain ⟨lineId, rfl⟩ := hline
    cases hl with
    | head => exact ⟨i, List.mem_cons_self, rfl, rfl⟩
    | tail _ hl =>
      obtain ⟨j, hj, hrest⟩ := ih hl
      exact ⟨j, List.mem_cons_of_mem i hj, hrest⟩

end Counting

theorem fits_stock {v : Db} (h : ∀ r ∈ v.inventories.rows, Arith.i64.Fits r.quantity)
    (item warehouse : ID) : Arith.i64.Fits (v.stock item warehouse) := by
  rw [Db.stock, Db.quantity?]
  cases hr : v.inventories.get? (item, warehouse) with
  | none => decide
  | some r => exact h r (Table.mem_of_get? hr)

/-- The creation of a check on item 7, of which the books have 20 units and 18 are counted. -/
def countItem : Handler InventoryCheckCreate.CreateCheckResponse :=
  InventoryCheckCreate.execute .i64 ⟨1, none, none⟩ ⟨1, 0, none, [⟨7, 18, none⟩]⟩

/-- The check, after its submission and the delivery of so many units. -/
def submittedCount (delivered : List ℤ) : Db :=
  elapse .i64 (numbered 200) (countItem.transact (numbered 100) openOrders).1
    (.submitCheck ⟨1, none, none⟩ 102 :: delivered.map fun q =>
      .move (.delivery ⟨1, none, none⟩ ⟨10, none, [⟨11, 7, 1, q, none⟩]⟩))

def approveCount : Handler CheckActionResponse :=
  InventoryCheckApprove.execute .i64 ⟨1, none, none⟩ 102

theorem countItem_transacts :
    ∃ response, response.id = 102 ∧ countItem.Transacts openOrders
      (countItem.transact (numbered 100) openOrders).1 (.ok response) := by
  have hid : (countItem.transact (numbered 100) openOrders).2.toOption.map
      InventoryCheckCreate.CreateCheckResponse.id = some 102 := by
    decide +kernel
  have hrun := Prog.transact_transacts (numbered 100) countItem openOrders
  cases hresult : (countItem.transact (numbered 100) openOrders).2 with
  | error e =>
    rw [hresult] at hid
    cases hid
  | ok response =>
    rw [hresult] at hid hrun
    exact ⟨response, Option.some.inj hid, hrun⟩

theorem approveCount_transacts (delivered : List ℤ)
    (h : ((approveCount.transact (numbered 900) (submittedCount delivered)).2.toOption).isSome) :
    ∃ response, approveCount.Transacts (submittedCount delivered)
      (approveCount.transact (numbered 900) (submittedCount delivered)).1 (.ok response) := by
  have hrun := Prog.transact_transacts (numbered 900) approveCount (submittedCount delivered)
  cases hresult : (approveCount.transact (numbered 900) (submittedCount delivered)).2 with
  | error e =>
    rw [hresult] at h
    cases h
  | ok response =>
    rw [hresult] at hrun
    exact ⟨response, hrun⟩

end Slab
