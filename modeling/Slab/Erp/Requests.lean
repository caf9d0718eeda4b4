import Slab.Erp.Sales
import Slab.Erp.Purchase
import Slab.Erp.Production
import Slab.Erp.Warehouse
import Slab.Erp.Movements

/-!
# Requests and their movements

The stock-moving requests, each with the list of movements it is to make on the database it
finds, and runs of such requests one after another.

## Main definitions

- `Request`, `Request.run` — the handlers, each in its own transaction
- `Request.movements` — what a request is to move
- `Serving`, `Serves` — one request that was served, and runs of them

## Main results

- `Request.effect` — a request that goes through makes its movements, and no others
- `Serves.induction` — what every request keeps holds after every run
-/

namespace Slab

open Txn

/-! ## The movements of one line -/

namespace SalesDeliveryCreate

def movement (line : DeliveryLineInput) : Movement where
  against := .salesOrderLine line.orderLineId
  counter := some (.delivered line.orderLineId)
  itemId := line.itemId
  warehouseId := line.warehouseId
  quantity := line.quantity
  txType := .outbound
  referenceType := "sales_delivery"

theorem writeLine_counted {ar : Arith} (lineId deliveryId : ID) {line : DeliveryLineInput}
    {ol : SalesOrderLine} {v : Db} (hget : v.salesOrderLines.get? line.orderLineId = some ol) :
    Counted ar [movement line] v
      (writeLine lineId deliveryId line (ar.add ol.deliveredQty line.quantity) v) := by
  refine .single (fun c hc => ?_) (fun c hc => ?_) (fun t i hi => ?_) fun l hl => .inl hl
  · obtain rfl := Option.some.inj hc
    simp [Db.counter, writeLine, Table.get?_modify_self, hget, SalesOrderLine.deliver, movement]
  · cases c with
    | delivered id =>
      have hid : id ≠ line.orderLineId := fun he => hc (by rw [he]; rfl)
      simp [Db.counter, writeLine, Table.get?_modify_of_ne hid]
    | _ => rfl
  · cases t with
    | salesOrderLine id =>
      rw [← hi, Db.itemOf, Db.itemOf, writeLine, Table.get?_modify]
      split
      · rw [Option.map_map]
        rfl
      · rfl
    | _ => exact hi

theorem deliverLine_effect {ar : Arith} {orderId deliveryId : ID} {line : DeliveryLineInput}
    {v w : Db} (h : (deliverLine ar orderId deliveryId line).Runs v w (.ok ())) :
    ∃ rows, Effect ar [movement line] v rows w := by
  obtain ⟨lineId, ol, hget, -, -, hissue⟩ := deliverLine_runs_ok ar h
  obtain ⟨row, hrow⟩ := booked_issue (m := movement line) ⟨rfl, rfl, rfl, rfl, rfl⟩ rfl hissue
  have hstay : Booked ar [] v [] (writeLine lineId deliveryId line
    (ar.add ol.deliveredQty line.quantity) v) := .of_eq rfl rfl
  have hcounted := (writeLine_counted lineId deliveryId hget).trans
    (.of_withoutStock ((InventoryLedger.issue_preserves _).runs hissue))
  exact ⟨[row], hstay.trans hrow, hcounted⟩

end SalesDeliveryCreate

namespace PurchaseReceiptCreate

def movement (line : CreateReceiptLine) : Movement where
  against := .purchaseOrderLine line.orderLineId
  counter := some (.received line.orderLineId)
  itemId := line.itemId
  warehouseId := line.warehouseId
  quantity := line.quantity
  txType := .inbound
  referenceType := "purchase_receipt"

theorem writeLine_counted {ar : Arith} (lineId receiptId : ID) {line : CreateReceiptLine}
    {ol : PurchaseOrderLine} {v : Db}
    (hget : v.purchaseOrderLines.get? line.orderLineId = some ol) :
    Counted ar [movement line] v
      (writeLine lineId receiptId line (ar.add ol.receivedQty line.quantity) v) := by
  refine .single (fun c hc => ?_) (fun c hc => ?_) (fun t i hi => ?_) fun l hl => ?_
  · obtain rfl := Option.some.inj hc
    simp [Db.counter, writeLine, Table.get?_modify_self, hget, PurchaseOrderLine.receive, movement]
  · cases c with
    | received id =>
      have hid : id ≠ line.orderLineId := fun he => hc (by rw [he]; rfl)
      simp [Db.counter, writeLine, Table.get?_modify_of_ne hid]
    | returned id =>
      rw [Db.counter, Db.counter, writeLine, Table.get?_modify]
      split
      · rw [Option.map_map]
        rfl
      · rfl
    | _ => rfl
  · cases t with
    | purchaseOrderLine id =>
      rw [← hi, Db.itemOf, Db.itemOf, writeLine, Table.get?_modify]
      split
      · rw [Option.map_map]
        rfl
      · rfl
    | returnLine id =>
      -- one receipt line more leaves the ones that returns refer to
      obtain ⟨l, hl, hitem⟩ := Option.bind_eq_some_iff.mp hi
      obtain ⟨rl, hrl, rfl⟩ := Option.map_eq_some_iff.mp hitem
      refine Option.bind_eq_some_iff.mpr ⟨l, hl, ?_⟩
      exact congrArg (Option.map PurchaseReceiptLine.itemId) (Table.get?_insert_of_some hrl)
    | _ => exact hi
  · refine (Table.mem_rows_insert hl).imp_right fun he => ?_
    subst he
    exact ⟨rfl, rfl⟩

theorem receiveLine_effect {ar : Arith} {orderId receiptId : ID} {line : CreateReceiptLine}
    {v w : Db} (h : (receiveLine ar orderId receiptId line).Runs v w (.ok ())) :
    ∃ rows, Effect ar [movement line] v rows w := by
  obtain ⟨lineId, ol, u, hget, -, -, -, hreceive, hcosts⟩ := receiveLine_runs_ok ar h
  obtain ⟨row, hrow⟩ := booked_receive (m := movement line) ⟨rfl, rfl, rfl, rfl, rfl⟩ rfl hreceive
  have hstay : Booked ar [] v [] (writeLine lineId receiptId line
    (ar.add ol.receivedQty line.quantity) v) := .of_eq rfl rfl
  have hcounted := (writeLine_counted lineId receiptId hget).trans
    (.of_withoutStock ((InventoryLedger.receive_preserves _).runs hreceive))
  have hcost : Effect ar [] u [] w := .of_withoutDocuments (congrArg Db.withoutDocuments hcosts :)
  exact ⟨[row], Effect.trans ⟨hstay.trans hrow, hcounted⟩ hcost⟩

end PurchaseReceiptCreate

namespace WorkOrderMaterialPick

def movement (item : PickItem) : Movement where
  against := .material item.materialId
  counter := some (.picked item.materialId)
  itemId := item.itemId
  warehouseId := item.warehouseId
  quantity := item.quantity
  txType := .materialPick
  referenceType := "work_order_pick"

theorem writeMaterial_counted {ar : Arith} {item : PickItem} {mat : WorkOrderMaterial} {v : Db}
    (hget : v.workOrderMaterials.get? item.materialId = some mat) :
    Counted ar [movement item] v
      (writeMaterial item.materialId (ar.add (mat.pickedQty.getD 0) item.quantity) v) := by
  refine .single (fun c hc => ?_) (fun c hc => ?_) (fun t i hi => ?_) fun l hl => .inl hl
  · obtain rfl := Option.some.inj hc
    simp [Db.counter, writeMaterial, Table.get?_modify_self, hget, WorkOrderMaterial.pick, movement]
  · cases c with
    | picked id =>
      have hid : id ≠ item.materialId := fun he => hc (by rw [he]; rfl)
      simp [Db.counter, writeMaterial, Table.get?_modify_of_ne hid]
    | _ => rfl
  · cases t with
    | material id =>
      rw [← hi, Db.itemOf, Db.itemOf, writeMaterial, Table.get?_modify]
      split
      · rw [Option.map_map]
        rfl
      · rfl
    | _ => exact hi

theorem pickItem_effect {ar : Arith} {workOrderId : ID} {item : PickItem} {v w : Db}
    (h : (pickItem ar workOrderId item).Runs v w (.ok ())) :
    ∃ rows, Effect ar [movement item] v rows w := by
  obtain ⟨mat, hget, -, -, hissue⟩ := pickItem_runs_ok ar h
  obtain ⟨row, hrow⟩ := booked_issue (m := movement item) ⟨rfl, rfl, rfl, rfl, rfl⟩ rfl hissue
  have hstay : Booked ar [] v [] (writeMaterial item.materialId
    (ar.add (mat.pickedQty.getD 0) item.quantity) v) := .of_eq rfl rfl
  have hcounted := (writeMaterial_counted hget).trans
    (.of_withoutStock ((InventoryLedger.issue_preserves _).runs hissue))
  exact ⟨[row], hstay.trans hrow, hcounted⟩

end WorkOrderMaterialPick

namespace PurchaseReturnApprove

def movement (line : JoinedLine) : Movement where
  against := .returnLine line.id
  counter := some (.returned line.orderLineId)
  itemId := line.itemId
  warehouseId := line.warehouseId
  quantity := line.quantity
  txType := .purchaseReturn
  referenceType := "purchase_return"

/-- The sum that the database accepts is the machine's. -/
theorem add_of_returnedOverflow {ar : Arith} {line : JoinedLine} {ol : PurchaseOrderLine} {u : Db}
    (hget : u.purchaseOrderLines.get? line.orderLineId = some ol)
    (h : returnedOverflow ar line.orderLineId line.quantity u = none) :
    ar.Fits (ol.returnedQty + line.quantity) := by
  rw [returnedOverflow, hget] at h
  by_contra hfits
  simp [hfits] at h

theorem giveBack_counted {ar : Arith} {line : JoinedLine} {u : Db}
    (h : returnedOverflow ar line.orderLineId line.quantity u = none) :
    Counted ar [movement line] u { u with
      purchaseOrderLines := u.purchaseOrderLines.modify line.orderLineId
        (PurchaseOrderLine.giveBack line.quantity)
        (PurchaseOrderLine.giveBack_id line.quantity) } := by
  refine .single (fun c hc => ?_) (fun c hc => ?_) (fun t i hi => ?_) fun l hl => .inl hl
  · obtain rfl := Option.some.inj hc
    cases hget : u.purchaseOrderLines.get? line.orderLineId with
    | none => simp [Db.counter, Table.get?_modify_self, hget]
    | some ol =>
      have hsum : ar.add ol.returnedQty line.quantity = ol.returnedQty + line.quantity :=
        Arith.add_eq_of_fits (add_of_returnedOverflow hget h)
      simp [Db.counter, Table.get?_modify_self, hget, PurchaseOrderLine.giveBack, movement, hsum]
  · cases c with
    | returned id =>
      have hid : id ≠ line.orderLineId := fun he => hc (by rw [he]; rfl)
      simp [Db.counter, Table.get?_modify_of_ne hid]
    | received id =>
      rw [Db.counter, Db.counter, Table.get?_modify]
      split
      · rw [Option.map_map]
        rfl
      · rfl
    | _ => rfl
  · cases t with
    | purchaseOrderLine id =>
      rw [← hi, Db.itemOf, Db.itemOf, Table.get?_modify]
      split
      · rw [Option.map_map]
        rfl
      · rfl
    | _ => exact hi

theorem returnLine_effect {ar : Arith} {line : JoinedLine} {v w : Db}
    (h : (returnLine ar line).Runs v w (.ok ())) :
    ∃ rows, Effect ar [movement line] v rows w := by
  obtain ⟨u, hissue, hfits, rfl⟩ := returnLine_runs_ok ar h
  obtain ⟨row, hrow⟩ := booked_forceIssue (m := movement line) ⟨rfl, rfl, rfl, rfl, rfl⟩ rfl hissue
  have hledger : Counted ar [] v u :=
    .of_withoutStock ((InventoryLedger.forceIssue_preserves _).runs hissue)
  exact ⟨[row], hrow.trans (.of_eq rfl rfl), hledger.trans (giveBack_counted hfits)⟩

end PurchaseReturnApprove

namespace StockTransferApprove

/-- The two movements of a transfer line. -/
def movements (fromWarehouse toWarehouse : ID) (item : StockTransferItem) : List Movement :=
  [{ against := .transferItem item.id, counter := none, itemId := item.itemId
     warehouseId := fromWarehouse, quantity := item.quantity, txType := .transferOut
     referenceType := "stock_transfer_out" },
    { against := .transferItem item.id, counter := none, itemId := item.itemId
      warehouseId := toWarehouse, quantity := item.quantity, txType := .transferIn
      referenceType := "stock_transfer_in" }]

theorem transferItem_effect {ar : Arith} {id fromWh toWh : ID} {item : StockTransferItem} {v w : Db}
    (h : (transferItem ar id fromWh toWh item).Runs v w (.ok ())) :
    ∃ rows, Effect ar (movements fromWh toWh item) v rows w := by
  obtain ⟨u, hissue, hreceive⟩ := InventoryLedger.transfer_runs_ok.mp h
  obtain ⟨row, hrow⟩ := booked_issue
    (m := ⟨.transferItem item.id, none, item.itemId, fromWh, item.quantity, .transferOut,
      "stock_transfer_out"⟩)
    ⟨rfl, rfl, rfl, rfl, rfl⟩ rfl hissue
  obtain ⟨row', hrow'⟩ := booked_receive
    (m := ⟨.transferItem item.id, none, item.itemId, toWh, item.quantity, .transferIn,
      "stock_transfer_in"⟩)
    ⟨rfl, rfl, rfl, rfl, rfl⟩ rfl hreceive
  have hout : Counted ar [] v u :=
    .of_withoutStock ((InventoryLedger.issue_preserves _).runs hissue)
  have hin : Counted ar [] u w :=
    .of_withoutStock ((InventoryLedger.receive_preserves _).runs hreceive)
  refine ⟨[row, row'], hrow.trans hrow', (hout.trans hin).of_uncounted fun m hm => ?_⟩
  rcases List.mem_pair.mp hm with rfl | rfl <;> rfl

end StockTransferApprove

namespace PurchaseReturnCreate

/-- A return line enters nothing yet. -/
theorem insertLine_effect {ar : Arith} {returnId : ID} {line : CreateReturnLine} {v w : Db}
    (h : (insertLine returnId line).Runs v w (.ok ())) : ∃ rows, Effect ar [] v rows w := by
  obtain ⟨lineId, -, -, rfl⟩ := insertLine_runs_ok h
  refine ⟨[], .of_eq rfl rfl, ⟨fun c => ?_, fun t i hi => ?_, fun l hl => .inl hl⟩⟩
  · simp only [amounts_nil, Arith.addAll_nil, Option.map_id']
    cases c <;> rfl
  · cases t with
    | returnLine id =>
      obtain ⟨l, hl, hitem⟩ := Option.bind_eq_some_iff.mp hi
      exact Option.bind_eq_some_iff.mpr ⟨l, Table.get?_insert_of_some hl, hitem⟩
    | _ => exact hi

end PurchaseReturnCreate

/-! ## Requests -/

inductive Request where
  | delivery (ctx : Operator) (request : SalesDeliveryCreate.CreateDeliveryRequest)
  | receipt (ctx : Operator) (request : PurchaseReceiptCreate.CreateReceiptRequest)
  | pick (ctx : Operator) (workOrderId : ID) (request : WorkOrderMaterialPick.PickRequest)
  | createReturn (ctx : Operator) (request : PurchaseReturnCreate.CreateReturnRequest)
  | submitReturn (id : ID)
  | approveReturn (ctx : Operator) (id : ID)
  | approveTransfer (ctx : Operator) (id : ID)
  | productionReceipt (ctx : Operator) (request : ProductionReceiptCreate.CreateReceiptRequest)

namespace Request

/-- The transaction of a request, its response left out. -/
def run (ar : Arith) : Request → Handler Unit
  | delivery ctx request => do
    let _ ← SalesDeliveryCreate.execute ar ctx request
    pure ()
  | receipt ctx request => do
    let _ ← PurchaseReceiptCreate.execute ar ctx request
    pure ()
  | pick ctx workOrderId request => WorkOrderMaterialPick.execute ar ctx workOrderId request
  | createReturn ctx request => do
    let _ ← PurchaseReturnCreate.execute ctx request
    pure ()
  | submitReturn id => PurchaseReturnApprove.submitExecute id
  | approveReturn ctx id => PurchaseReturnApprove.approveExecute ar ctx id
  | approveTransfer ctx id => StockTransferApprove.execute ar ctx id
  | productionReceipt ctx request => do
    let _ ← ProductionReceiptCreate.execute ar ctx request
    pure ()

/-- What the request is to move on the database it finds, in order. -/
def movements (db : Db) : Request → List Movement
  | delivery _ request => request.lines.flatMap fun l => [SalesDeliveryCreate.movement l]
  | receipt _ request => request.lines.flatMap fun l => [PurchaseReceiptCreate.movement l]
  | pick _ _ request => request.items.flatMap fun i => [WorkOrderMaterialPick.movement i]
  | createReturn _ _ => []
  | submitReturn _ => []
  | approveReturn _ id =>
    (PurchaseReturnApprove.joinedLines id db).flatMap fun l => [PurchaseReturnApprove.movement l]
  | approveTransfer _ id =>
    match db.stockTransfers.get? id with
    | some t => (StockTransferApprove.items id db).flatMap
      (StockTransferApprove.movements t.fromWarehouseId t.toWarehouseId)
    | none => []
  | productionReceipt _ request =>
    match db.workOrders.get? request.workOrderId with
    | some wo =>
      [{ against := .workOrder request.workOrderId, counter := none, itemId := wo.itemId
         warehouseId := request.warehouseId, quantity := request.quantity, txType := .inbound
         referenceType := "production_receipt" }]
    | none => []

variable {ar : Arith} {v w : Db}

theorem delivery_effect {ctx : Operator} {request : SalesDeliveryCreate.CreateDeliveryRequest}
    (h : ((delivery ctx request).run ar).Runs v w (.ok ())) :
    ∃ rows, Effect ar ((delivery ctx request).movements v) v rows w := by
  obtain ⟨response, h⟩ := Prog.runs_discard h
  simp only [SalesDeliveryCreate.execute, Prog.runs_bind_ok, Prog.pure_eq, Prog.runs_ret] at h
  obtain ⟨u, header, hheader, w', _, hlines, rfl, -⟩ := h
  have hstart : Effect ar [] v [] u :=
    .of_preserves (SalesDeliveryCreate.createHeader_preserves _ _) hheader
  obtain ⟨rows, hrows⟩ := Effect.forEach
    (fun _ _ _ _ hl => SalesDeliveryCreate.deliverLine_effect hl) hlines
  exact ⟨rows, hstart.trans hrows⟩

theorem receipt_effect {ctx : Operator} {request : PurchaseReceiptCreate.CreateReceiptRequest}
    (h : ((receipt ctx request).run ar).Runs v w (.ok ())) :
    ∃ rows, Effect ar ((receipt ctx request).movements v) v rows w := by
  obtain ⟨response, h⟩ := Prog.runs_discard h
  simp only [PurchaseReceiptCreate.execute, Prog.runs_bind_ok, Prog.pure_eq, Prog.runs_ret] at h
  obtain ⟨u, header, hheader, u', _, hlines, w', _, hrecord, rfl, -⟩ := h
  have hstart : Effect ar [] v [] u :=
    .of_preserves (PurchaseReceiptCreate.createHeader_preserves _) hheader
  have hstop : Effect ar [] u' [] w := by
    refine .of_preserves ?_ hrecord
    exact (PurchaseReceiptCreate.recordHeader_preserves _ _).factor (by intro _; rfl)
  obtain ⟨rows, hrows⟩ := Effect.forEach
    (fun _ _ _ _ hl => PurchaseReceiptCreate.receiveLine_effect hl) hlines
  have hall := (hstart.trans hrows).trans hstop
  rw [List.append_nil] at hall
  exact ⟨_, hall⟩

theorem pick_effect {ctx : Operator} {workOrderId : ID}
    {request : WorkOrderMaterialPick.PickRequest}
    (h : ((pick ctx workOrderId request).run ar).Runs v w (.ok ())) :
    ∃ rows, Effect ar ((pick ctx workOrderId request).movements v) v rows w := by
  simp only [run, WorkOrderMaterialPick.execute, Prog.runs_bind_ok] at h
  obtain ⟨u, before, hlock, u', _, hitems, hrecord⟩ := h
  have hstart : Effect ar [] v [] u :=
    .of_preserves (WorkOrderMaterialPick.lockReleased_preserves _ _) hlock
  have hstop : Effect ar [] u' [] w :=
    .of_preserves (WorkOrderMaterialPick.recordPick_preserves _ _ _) hrecord
  obtain ⟨rows, hrows⟩ := Effect.forEach
    (fun _ _ _ _ hi => WorkOrderMaterialPick.pickItem_effect hi) hitems
  have hall := (hstart.trans hrows).trans hstop
  rw [List.append_nil] at hall
  exact ⟨_, hall⟩

/-- A new return enters nothing. -/
theorem createReturn_effect {ctx : Operator} {request : PurchaseReturnCreate.CreateReturnRequest}
    (h : ((createReturn ctx request).run ar).Runs v w (.ok ())) :
    ∃ rows, Effect ar ((createReturn ctx request).movements v) v rows w := by
  obtain ⟨response, h⟩ := Prog.runs_discard h
  simp only [PurchaseReturnCreate.execute, Prog.runs_bind_ok, Prog.pure_eq, Prog.runs_ret] at h
  obtain ⟨u, header, hheader, u', _, hlines, w', _, hrecord, rfl, -⟩ := h
  have hstart : Effect ar [] v [] u :=
    .of_preserves (PurchaseReturnCreate.createHeader_preserves _) hheader
  have hstop : Effect ar [] u' [] w := by
    refine .of_preserves ?_ hrecord
    exact (PurchaseReturnCreate.recordHeader_preserves _ _).factor (by intro _; rfl)
  obtain ⟨rows, hrows⟩ := Effect.forEach (m := fun _ => [])
    (fun _ _ _ _ hl => PurchaseReturnCreate.insertLine_effect hl) hlines
  have hall := (hstart.trans hrows).trans hstop
  rw [List.append_nil, List.nil_append, List.flatMap_eq_nil_iff.mpr fun _ _ => rfl] at hall
  exact ⟨_, hall⟩

theorem submitReturn_effect {id : ID} (h : ((submitReturn id).run ar).Runs v w (.ok ())) :
    ∃ rows, Effect ar ((submitReturn id).movements v) v rows w :=
  ⟨[], .of_preserves (PurchaseReturnApprove.submitExecute_preserves id) h⟩

theorem approveReturn_effect {ctx : Operator} {id : ID}
    (h : ((approveReturn ctx id).run ar).Runs v w (.ok ())) :
    ∃ rows, Effect ar ((approveReturn ctx id).movements v) v rows w := by
  simp only [run, PurchaseReturnApprove.approveExecute, Prog.runs_bind_ok, Prog.runs_select] at h
  obtain ⟨_, _, hheader, u, lines, ⟨rfl, hlines⟩, hloop⟩ := h
  have hsame := (PurchaseReturnApprove.approveHeader_preserves ctx id).runs hheader
  -- the header does not touch the lines
  have hjoined : PurchaseReturnApprove.joinedLines id u = PurchaseReturnApprove.joinedLines id v :=
    (congrArg (PurchaseReturnApprove.joinedLines id) hsame :)
  obtain rfl : lines = PurchaseReturnApprove.joinedLines id v :=
    (Except.ok.inj hlines).trans hjoined
  obtain ⟨rows, hrows⟩ := Effect.forEach
    (fun _ _ _ _ hl => PurchaseReturnApprove.returnLine_effect hl) hloop
  exact ⟨rows, (Effect.of_withoutDocuments hsame).trans hrows⟩

theorem approveTransfer_effect {ctx : Operator} {id : ID}
    (h : ((approveTransfer ctx id).run ar).Runs v w (.ok ())) :
    ∃ rows, Effect ar ((approveTransfer ctx id).movements v) v rows w := by
  simp only [run, StockTransferApprove.execute, Prog.runs_bind_ok,
    StockTransferApprove.lockTransfer_runs, Prog.runs_select] at h
  obtain ⟨v, t, ⟨rfl, ht⟩, _, ends, happrove, u, lines, ⟨rfl, hlines⟩, u', _, hloop, hrecord⟩ := h
  obtain ⟨t', ht', -, rfl, ts, rfl⟩ := StockTransferApprove.approve_runs happrove
  obtain rfl : t' = t := Option.some.inj (ht'.symm.trans ht)
  obtain rfl := Except.ok.inj hlines
  have hstart : Effect ar [] v [] { v with stockTransfers := ts } := .of_withoutDocuments rfl
  have hstop : Effect ar [] u' [] w :=
    .of_preserves (StockTransferApprove.recordApproval_preserves _ _ _) hrecord
  obtain ⟨rows, hrows⟩ := Effect.forEach
    (fun _ _ _ _ hl => StockTransferApprove.transferItem_effect hl) hloop
  have hall := (hstart.trans hrows).trans hstop
  rw [List.append_nil] at hall
  simp only [movements, ht']
  exact ⟨_, hall⟩

theorem productionReceipt_effect {ctx : Operator}
    {request : ProductionReceiptCreate.CreateReceiptRequest}
    (h : ((productionReceipt ctx request).run ar).Runs v w (.ok ())) :
    ∃ rows, Effect ar ((productionReceipt ctx request).movements v) v rows w := by
  obtain ⟨response, h⟩ := Prog.runs_discard h
  simp only [ProductionReceiptCreate.execute, Prog.runs_bind_ok, Prog.pure_eq, Prog.runs_ret] at h
  obtain ⟨u, ⟨item, header⟩, hheader, u', _, hreceive, w', _, hrecord, rfl, -⟩ := h
  obtain ⟨wo, hwo, rfl⟩ := ProductionReceiptCreate.createHeader_item hheader
  have hstart : Effect ar [] v [] u :=
    .of_preserves (ProductionReceiptCreate.createHeader_preserves _) hheader
  have hstop : Effect ar [] u' [] w :=
    .of_preserves (ProductionReceiptCreate.recordHeader_preserves _ _) hrecord
  obtain ⟨row, hrow⟩ := booked_receive (m := ⟨.workOrder request.workOrderId, none, wo.itemId,
    request.warehouseId, request.quantity, .inbound, "production_receipt"⟩)
    ⟨rfl, rfl, rfl, rfl, rfl⟩ rfl hreceive
  have hcounted : Counted ar [] u u' :=
    .of_withoutStock ((InventoryLedger.receive_preserves _).runs hreceive)
  have hreceived : Effect ar _ u [row] u' :=
    ⟨hrow, hcounted.of_uncounted fun m hm => by rw [List.mem_singleton.mp hm]⟩
  have hall := (hstart.trans hreceived).trans hstop
  simp only [movements, hwo]
  exact ⟨_, hall⟩

/-- A request that goes through makes its movements, in order, and no others. -/
theorem effect (r : Request) (h : (r.run ar).Runs v w (.ok ())) :
    ∃ rows, Effect ar (r.movements v) v rows w := by
  cases r with
  | delivery => exact delivery_effect h
  | receipt => exact receipt_effect h
  | pick => exact pick_effect h
  | createReturn => exact createReturn_effect h
  | submitReturn => exact submitReturn_effect h
  | approveReturn => exact approveReturn_effect h
  | approveTransfer => exact approveTransfer_effect h
  | productionReceipt => exact productionReceipt_effect h

end Request

/-! ## Runs -/

/-- A request that was served: the database it found and left, and its result. -/
structure Serving where
  request : Request
  found : Db
  left : Db
  result : Except AppError Unit

/-- What it moved: nothing if it was rejected. -/
def Serving.made (x : Serving) : List Movement :=
  match x.result with
  | .ok _ => x.request.movements x.found
  | .error _ => []

/-- Requests served one after another, each on what the one before it left. -/
def Serves (ar : Arith) (v : Db) : List Serving → Db → Prop
  | [], w => w = v
  | x :: xs, w => x.found = v ∧ (x.request.run ar).Transacts x.found x.left x.result ∧
    Serves ar x.left xs w

variable {ar : Arith} {v w : Db}

theorem Serving.effect {x : Serving}
    (h : (x.request.run ar).Transacts x.found x.left x.result) :
    ∃ rows, Effect ar x.made x.found rows x.left := by
  obtain ⟨request, found, left, result⟩ := x
  cases result with
  | ok u => exact request.effect (Prog.transacts_ok.mp h)
  | error e =>
    obtain rfl : left = found := h.of_error
    exact ⟨[], .of_withoutDocuments rfl⟩

/-- The books after a run. -/
theorem Serves.effect {xs : List Serving} (h : Serves ar v xs w) :
    ∃ rows, Effect ar (xs.flatMap Serving.made) v rows w := by
  induction xs generalizing v with
  | nil =>
    obtain rfl : w = v := h
    exact ⟨[], .of_withoutDocuments rfl⟩
  | cons x xs ih =>
    obtain ⟨rfl, hx, hxs⟩ := h
    obtain ⟨rows, hrows⟩ := Serving.effect hx
    obtain ⟨rows', hrows'⟩ := ih hxs
    exact ⟨rows ++ rows', hrows.trans hrows'⟩

/-- What every request of a run keeps holds after the run. -/
theorem Serves.induction {P : Db → Prop} {xs : List Serving} (h : Serves ar v xs w)
    (hstep : ∀ x ∈ xs, (x.request.run ar).Transacts x.found x.left x.result → P x.found →
      P x.left) (hv : P v) : P w := by
  induction xs generalizing v with
  | nil =>
    obtain rfl : w = v := h
    exact hv
  | cons x xs ih =>
    obtain ⟨rfl, hx, hxs⟩ := h
    exact ih hxs (fun y hy => hstep y (List.mem_cons_of_mem x hy))
      (hstep x List.mem_cons_self hx hv)

/-- The run of a list of requests, with the answers of `world` to each. -/
def serve (ar : Arith) (world : ℕ → (q : Ask) → Answer q) : Db → List Request → List Serving × Db
  | v, [] => ([], v)
  | v, r :: rs =>
    let (w, result) := (r.run ar).transact world v
    let (xs, u) := serve ar (fun n => world (n + 100)) w rs
    (⟨r, v, w, result⟩ :: xs, u)

theorem serve_serves (ar : Arith) (world : ℕ → (q : Ask) → Answer q) (v : Db) (rs : List Request) :
    Serves ar v (serve ar world v rs).1 (serve ar world v rs).2 := by
  induction rs generalizing world v with
  | nil => rfl
  | cons r rs ih => exact ⟨rfl, Prog.transact_transacts world _ v, ih _ _⟩

/-- An approved sales order with one line, an approved purchase order with one, a released
work order with one material, and stock. -/
def openOrders : Db :=
  { Db.empty with
    inventories := (Table.empty.insert ⟨1, 7, 1, 20, 0, 1⟩).insert ⟨2, 8, 1, 20, 0, 1⟩
    salesOrders := Table.empty.insert ⟨10, 50, 3, 0⟩
    salesOrderLines := Table.empty.insert ⟨11, 10, 7, 10, 0, false, 1, 0, 0⟩
    purchaseOrders := Table.empty.insert ⟨20, 60, 3, 0⟩
    purchaseOrderLines := Table.empty.insert ⟨21, 20, 8, 6, 0, 0, false, 1, 0, 0⟩
    workOrders := Table.empty.insert ⟨30, "WO-1", 1, 9, 5, 0, 0, 1, none, none⟩
    workOrderMaterials := Table.empty.insert ⟨31, 30, 7, 4, none⟩ }

end Slab
