import Slab.Erp.Requests
import Slab.Erp.OrderCreation
import Slab.Erp.WorkOrders
import Slab.Erp.Planning

/-!
# Stock and what is on its way

What planning counts on of an item is its stock, over all warehouses, and what approved purchase
orders still have to bring. Approvals raise it by the open lines of the order, receipts turn the
one into the other, and everything else changes it as the stock moves.

## Main definitions

- `Db.position` — stock and what is on its way
- `netMoved` — what movements add to the stock of an item
- `SupplyRequest` — purchase orders and the requests that move stock
- `SupplyRequest.gain` — what a request adds to the position of an item

## Main results

- `Booked.total` — the stock after a list of movements
- `inTransit_approve`, `inTransit_writeLine` — what approvals and receipts do to what is on its way
- `SupplyRequest.supplies` — one request
-/

namespace Slab

open Txn Relation

open PurchaseOrderRepository (lockOrder lockStatus setStatus updateStatus transition)

open PurchaseOrderCreate (storeOrder)

/-! ## Stock -/

/-- What a movement adds to the stock. -/
def Movement.delta (m : Movement) : ℤ := if m.txType.isReceipt then m.quantity else -m.quantity

/-- What movements add to the stock of an item, over all warehouses. -/
def netMoved (item : ID) (ms : List Movement) : ℤ :=
  ((ms.filter fun m => m.itemId = item).map Movement.delta).sum

@[simp] theorem netMoved_nil (item : ID) : netMoved item [] = 0 := rfl

theorem netMoved_cons (item : ID) (m : Movement) (ms : List Movement) :
    netMoved item (m :: ms) = (if m.itemId = item then m.delta else 0) + netMoved item ms := by
  by_cases h : m.itemId = item <;> simp [netMoved, h]

/-- The stock of an item over all warehouses, by the warehouses. -/
theorem Db.total_eq_sum (db : Db) (item : ID) {warehouses : Finset ID}
    (h : ∀ iv ∈ db.inventories.rows, iv.warehouseId ∈ warehouses) :
    db.total item = ∑ warehouse ∈ warehouses, db.stock item warehouse := by
  rw [Db.total, Table.tally_eq_sum]
  refine Finset.sum_bij_ne_zero (fun k _ _ => k.2) (fun k hk _ => ?_) (fun k hk _ k' hk' _ he => ?_)
    (fun warehouse _ hne => ?_) fun k hk _ => ?_
  · obtain ⟨iv, hget, -⟩ := Table.mem_keys_filter.mp hk
    have hkey := Table.key_of_get? hget
    rw [← hkey]
    exact h iv (Table.mem_of_get? hget)
  · obtain ⟨iv, hget, hp⟩ := Table.mem_keys_filter.mp hk
    obtain ⟨iv', hget', hp'⟩ := Table.mem_keys_filter.mp hk'
    have hfst : k.1 = item := by
      rw [← Table.key_of_get? hget]
      exact of_decide_eq_true hp
    have hfst' : k'.1 = item := by
      rw [← Table.key_of_get? hget']
      exact of_decide_eq_true hp'
    exact Prod.ext (hfst.trans hfst'.symm) he
  · cases hget : db.inventories.get? (item, warehouse) with
    | none => simp [Db.stock, Db.quantity?, hget] at hne
    | some iv =>
      have hitem : iv.itemId = item := congrArg Prod.fst (Table.key_of_get? hget)
      refine ⟨(item, warehouse), Table.mem_keys_filter.mpr ⟨iv, hget, by simp [hitem]⟩, ?_, rfl⟩
      rwa [Db.stock, Db.quantity?] at hne
  · obtain ⟨iv, hget, hp⟩ := Table.mem_keys_filter.mp hk
    have hfst : k.1 = item := by
      rw [← Table.key_of_get? hget]
      exact of_decide_eq_true hp
    rw [Db.stock, Db.quantity?, ← hfst]

/-- A journal row changes the stocks of its item, all together, as it says. -/
theorem sum_setStock (s : ID → ID → ℤ) (t : InventoryTransaction) (item : ID)
    {warehouses : Finset ID} (h : t.warehouseId ∈ warehouses)
    (hbefore : t.beforeQuantity = s t.itemId t.warehouseId) :
    ∑ warehouse ∈ warehouses, setStock s t item warehouse =
      (if t.itemId = item then t.afterQuantity - t.beforeQuantity else 0) +
        ∑ warehouse ∈ warehouses, s item warehouse := by
  by_cases hitem : t.itemId = item
  · subst hitem
    have hset : setStock s t t.itemId = Function.update (s t.itemId) t.warehouseId
        t.afterQuantity := by
      funext warehouse
      by_cases hw : warehouse = t.warehouseId
      · subst hw
        simp [setStock]
      · simp [setStock, hw]
    rw [hset, Finset.sum_update_of_mem h, if_pos rfl, hbefore,
      Finset.sum_eq_add_sum_sdiff_singleton_of_mem h (s t.itemId)]
    ring
  · have hset : setStock s t item = s item := by
      funext warehouse
      simp [setStock, Ne.symm hitem]
    rw [hset, if_neg hitem, zero_add]

/-- Journal rows change the stocks of an item, all together, by their differences. -/
theorem Replays.sum {s s' : ID → ID → ℤ} {rows : List InventoryTransaction} (h : Replays s rows s')
    (item : ID) {warehouses : Finset ID} (hrows : ∀ t ∈ rows, t.warehouseId ∈ warehouses) :
    ∑ warehouse ∈ warehouses, s' item warehouse = ∑ warehouse ∈ warehouses, s item warehouse +
      (rows.map fun t =>
        if t.itemId = item then t.afterQuantity - t.beforeQuantity else 0).sum := by
  induction rows generalizing s with
  | nil =>
    obtain rfl : s' = s := h
    simp
  | cons t rows ih =>
    rw [ih h.2 fun u hu => hrows u (List.mem_cons_of_mem t hu),
      sum_setStock s t item (hrows t List.mem_cons_self) h.1, List.map_cons, List.sum_cons]
    ring

/-- The rows of movements differ by what the movements add. -/
theorem sum_books {ms : List Movement} {rows : List InventoryTransaction}
    (h : List.Forall₂ (Movement.Books .exact) ms rows) (item : ID) :
    (rows.map fun t => if t.itemId = item then t.afterQuantity - t.beforeQuantity else 0).sum =
      netMoved item ms := by
  induction h with
  | nil => rfl
  | @cons m t ms rows hm _ ih =>
    have hdelta : t.afterQuantity - t.beforeQuantity = m.delta := by
      rw [hm.after, Movement.after, Movement.delta]
      split <;> simp only [Arith.exact_add, Arith.exact_sub] <;> omega
    rw [List.map_cons, List.sum_cons, ih, netMoved_cons, hm.item, hdelta]

/-- The stock of an item after movements. -/
theorem Booked.total {ms : List Movement} {v w : Db} {rows : List InventoryTransaction}
    (h : Booked .exact ms v rows w) (item : ID) :
    w.total item = v.total item + netMoved item ms := by
  let warehouses : Finset ID :=
    ((v.inventories.rows ++ w.inventories.rows).map Inventory.warehouseId ++
      rows.map InventoryTransaction.warehouseId).toFinset
  have hv : ∀ iv ∈ v.inventories.rows, iv.warehouseId ∈ warehouses := by
    intro iv hiv
    simp only [warehouses, List.mem_toFinset, List.mem_append, List.mem_map]
    exact .inl ⟨iv, .inl hiv, rfl⟩
  have hw : ∀ iv ∈ w.inventories.rows, iv.warehouseId ∈ warehouses := by
    intro iv hiv
    simp only [warehouses, List.mem_toFinset, List.mem_append, List.mem_map]
    exact .inl ⟨iv, .inr hiv, rfl⟩
  have hrows : ∀ t ∈ rows, t.warehouseId ∈ warehouses := by
    intro t ht
    simp only [warehouses, List.mem_toFinset, List.mem_append, List.mem_map]
    exact .inr ⟨t, ht, rfl⟩
  calc w.total item = ∑ warehouse ∈ warehouses, w.stock item warehouse := w.total_eq_sum item hw
    _ = ∑ warehouse ∈ warehouses, v.stock item warehouse + netMoved item ms := by
      rw [h.stock.sum item hrows, sum_books h.books]
    _ = v.total item + netMoved item ms := by rw [v.total_eq_sum item hv]

/-! ## What is on its way -/

namespace Db

/-- What planning counts on: the stock, and what approved orders still have to bring. -/
def position (db : Db) (item : ID) : ℤ := db.total item + db.inTransit item

/-- What the open lines of an order have still to bring of an item. -/
def openQty (db : Db) (orderId item : ID) : ℤ :=
  db.purchaseOrderLines.tally
    (fun pol => pol.orderId = orderId ∧ pol.itemId = item ∧ pol.quantity > pol.receivedQty)
    fun pol => pol.quantity - pol.receivedQty

def isApproved (db : Db) (orderId : ID) : Bool :=
  (db.purchaseOrders.get? orderId).any fun po => po.status = 3

/-- No order line has received more than it asks for. -/
def NoOverReceipt (db : Db) : Prop :=
  ∀ l ∈ db.purchaseOrderLines.rows, l.receivedQty ≤ l.quantity

/-- What is in transit depends on the open lines and on which orders are approved. -/
theorem inTransit_congr {v w : Db} (hlines : w.purchaseOrderLines = v.purchaseOrderLines)
    (happroved : ∀ l ∈ v.purchaseOrderLines.rows, w.isApproved l.orderId = v.isApproved l.orderId)
    (item : ID) : w.inTransit item = v.inTransit item := by
  rw [inTransit, inTransit, hlines, Table.tally, Table.tally]
  congr 2
  refine List.filter_congr fun l hl => ?_
  have hsame := happroved l hl
  rw [isApproved, isApproved] at hsame
  rw [hsame]

end Db

/-- A draft brings nothing. -/
theorem inTransit_storeDraft {v : Db} {row : PurchaseOrder} (hrow : row.status = 0) (item : ID)
    (hfree : v.purchaseOrders.get? row.id = none) :
    (storeOrder row v).inTransit item = v.inTransit item := by
  refine Db.inTransit_congr (v := v) (w := storeOrder row v) rfl (fun l _ => ?_) item
  by_cases he : row.id = l.orderId
  · rw [Db.isApproved, Db.isApproved, ← he, hfree, storeOrder, Table.get?_insert_self hfree]
    simp [hrow]
  · rw [Db.isApproved, storeOrder, Table.get?_insert_of_ne he]
    rfl

/-- A line of an order that is not approved is not on its way. -/
theorem inTransit_insertLine {v : Db} {l : PurchaseOrderLine}
    (h : v.isApproved l.orderId = false) (item : ID) :
    ({ v with purchaseOrderLines := v.purchaseOrderLines.insert l } : Db).inTransit item =
      v.inTransit item := by
  have hno : ¬ ((v.purchaseOrders.get? l.orderId).any fun po => po.status = 3) = true := by
    rw [← Db.isApproved, h]
    exact Bool.false_ne_true
  rw [Db.inTransit, Db.inTransit]
  show (v.purchaseOrderLines.insert l).tally _ _ = _
  rw [Table.tally_insert_eq]
  simp [hno]

/-- A change of status approves the order, or leaves what is on its way. -/
theorem inTransit_setStatus {v : Db} {id : ID} {po : PurchaseOrder} {status : ℤ}
    (hpo : v.purchaseOrders.get? id = some po) (hfrom : po.status ≠ 3) (item : ID) :
    (setStatus id status v).inTransit item =
      v.inTransit item + if status = 3 then v.openQty id item else 0 := by
  have happroved : ∀ j, (setStatus id status v).isApproved j =
      if j = id then decide (status = 3) else v.isApproved j := by
    intro j
    rw [Db.isApproved, setStatus, Table.get?_modify]
    by_cases hj : j = id
    · rw [if_pos hj, if_pos hj, hj, hpo]
      rfl
    · rw [if_neg hj, if_neg hj, Db.isApproved]
  have hold : v.isApproved id = false := by
    rw [Db.isApproved, hpo]
    simpa using hfrom
  show v.purchaseOrderLines.tally (fun pol => pol.itemId = item ∧ pol.quantity > pol.receivedQty ∧
      (setStatus id status v).isApproved pol.orderId = true) _ =
    v.purchaseOrderLines.tally (fun pol => pol.itemId = item ∧ pol.quantity > pol.receivedQty ∧
      v.isApproved pol.orderId = true) _ + _
  rw [Db.openQty, Table.tally, Table.tally, Table.tally, sum_filter, sum_filter, sum_filter]
  by_cases hs : status = 3
  · rw [if_pos hs, ← List.sum_map_add]
    refine congrArg List.sum (List.map_congr_left fun l _ => ?_)
    rw [happroved]
    by_cases hl : l.orderId = id
    · simp [hl, hs, hold]
    · simp [hl]
  · rw [if_neg hs, add_zero]
    refine congrArg List.sum (List.map_congr_left fun l _ => ?_)
    rw [happroved]
    by_cases hl : l.orderId = id
    · simp [hl, hs, hold]
    · simp [hl]

/-- What a receipt line brings is on its way no more. -/
theorem inTransit_writeLine {v : Db} {lineId receiptId : ID}
    {line : PurchaseReceiptCreate.CreateReceiptLine} {ol : PurchaseOrderLine}
    (hol : v.purchaseOrderLines.get? line.orderLineId = some ol)
    (happroved : v.isApproved ol.orderId = true) (hle : ol.receivedQty ≤ ol.quantity)
    (hnew : ol.receivedQty + line.quantity ≤ ol.quantity) (item : ID) :
    (PurchaseReceiptCreate.writeLine lineId receiptId line (ol.receivedQty + line.quantity)
      v).inTransit item = v.inTransit item - if ol.itemId = item then line.quantity else 0 := by
  show (v.purchaseOrderLines.modify line.orderLineId
    (PurchaseOrderLine.receive (ol.receivedQty + line.quantity))
    (PurchaseOrderLine.receive_id (ol.receivedQty + line.quantity))).tally _ _ = _
  rw [Table.tally_modify hol, Db.inTransit]
  rw [Db.isApproved] at happroved
  simp only [PurchaseOrderLine.receive, PurchaseReceiptCreate.writeLine, happroved, and_true,
    decide_eq_true_eq]
  by_cases hitem : ol.itemId = item
  · simp only [hitem, true_and]
    split <;> split <;> simp <;> omega
  · simp [hitem]

/-! ## Requests -/

/-- A request on purchase orders other than a receipt, or one that moves stock. -/
inductive SupplyRequest where
  | order (request : OrderRequest) (h : request.isReceipt = false)
  | move (request : Request)

namespace SupplyRequest

def run : SupplyRequest → Handler Unit
  | order request _ => request.run
  | move request => request.run .exact

/-- The open lines of the order that the request approves: it is with the supervisor. -/
def approved (db : Db) (item : ID) : SupplyRequest → ℤ
  | order (.approve _ id) _ =>
    if (db.purchaseOrders.get? id).any fun po =>
        po.status = PurchaseOrderStatus.pendingSupervisor.toI16 then
      db.openQty id item
    else 0
  | _ => 0

/-- What the request moves; a receipt only brings what was on its way. -/
def moved (db : Db) (item : ID) : SupplyRequest → ℤ
  | order _ _ => 0
  | move (.receipt _ _) => 0
  | move request => netMoved item (request.movements db)

def gain (db : Db) (item : ID) (request : SupplyRequest) : ℤ :=
  request.approved db item + request.moved db item

/-- Orders are not for less than nothing, and what is received is what was ordered. -/
def Proper (db : Db) : SupplyRequest → Prop
  | order (.create _ request) _ => ∀ line ∈ request.lines, 0 ≤ line.quantity
  | move (.receipt _ request) => ∀ line ∈ request.lines,
    ∀ ol ∈ db.purchaseOrderLines.get? line.orderLineId, ol.itemId = line.itemId
  | _ => True

instance (db : Db) (request : SupplyRequest) : Decidable (request.Proper db) := by
  unfold Proper
  split <;> infer_instance

end SupplyRequest

/-- The positions have changed by what is gained, items are as they were, and no order line has
received too much. -/
structure Supplies (gain : ID → ℤ) (v w : Db) : Prop where
  items : w.items = v.items
  noOverReceipt : w.NoOverReceipt
  position : ∀ item, w.position item = v.position item + gain item

namespace Supplies

variable {g g' : ID → ℤ} {u v w : Db}

theorem refl (hv : v.NoOverReceipt) : Supplies (fun _ => 0) v v :=
  ⟨rfl, hv, fun _ => (add_zero _).symm⟩

theorem trans (h : Supplies g v u) (h' : Supplies g' u w) :
    Supplies (fun item => g item + g' item) v w :=
  ⟨h'.items.trans h.items, h'.noOverReceipt, fun item => by
    rw [h'.position, h.position, add_assoc]⟩

/-- What is in transit changes while the stock stays. -/
theorem of_inTransit (hitems : w.items = v.items) (hstock : w.inventories = v.inventories)
    (hlines : w.NoOverReceipt) (h : ∀ item, w.inTransit item = v.inTransit item + g item) :
    Supplies g v w := by
  refine ⟨hitems, hlines, fun item => ?_⟩
  have htotal : w.total item = v.total item := by rw [Db.total, Db.total, hstock]
  rw [Db.position, Db.position, htotal, h, add_assoc]

end Supplies

/-! ## Orders -/

section Orders

variable {ctx : Operator} {id : ID} {v w : Db}

/-- A change of status writes the order's row, and the trail. -/
theorem changeStatus_runs_ok {rule : ℤ → Except AppError ℤ} {status : ℤ}
    (h : (changeStatus ctx id (transition id rule)).Runs v w (.ok status)) :
    ∃ po logs, v.purchaseOrders.get? id = some po ∧ rule po.status = .ok status ∧
      w = { setStatus id status v with auditLogs := logs } := by
  simp only [changeStatus, transition, lockStatus, lockOrder, updateStatus, Prog.runs_bind_ok,
    Prog.runs_selectForUpdate, Prog.runs_orFail_ok, Prog.runs_ofExcept, Prog.runs_update,
    Prog.runs_select, Prog.pure_eq, Prog.runs_ret] at h
  obtain ⟨_, before, ⟨_, _, ⟨rfl, -⟩, rfl, -⟩, _, new, ⟨_, old, ⟨_, row, ⟨v, found, ⟨rfl, hfound⟩,
    rfl, hrow⟩, rfl, hold⟩, _, _, ⟨rfl, hnew⟩, _, _, ⟨rfl, -⟩, rfl, hres⟩, _, _, ⟨rfl, -⟩, _, after,
    ⟨rfl, -⟩, _, _, hrecord, rfl, hstatus⟩ := h
  obtain ⟨-, audit, rfl⟩ := AuditService.record_runs hrecord
  obtain rfl := Except.ok.inj hold
  obtain rfl := Except.ok.inj hres
  obtain rfl := Except.ok.inj hstatus
  exact ⟨row, _, (Except.ok.inj hfound).symm.trans hrow, hnew.symm, rfl⟩

/-- A change of status from another one than approved. -/
theorem supplies_setStatus {po : PurchaseOrder} (logs : List AuditLog) (status : ℤ)
    (hv : v.NoOverReceipt) (hpo : v.purchaseOrders.get? id = some po) (hfrom : po.status ≠ 3) :
    Supplies (fun item => if status = 3 then v.openQty id item else 0) v
      { setStatus id status v with auditLogs := logs } :=
  .of_inTransit rfl rfl hv fun item => inTransit_setStatus hpo hfrom item

/-- The response says no more than that the request went through. -/
theorem runs_result {α β : Type} {p : Handler α} {f : α → β} {b : β}
    (h : (p >>= fun a => (pure (f a) : Handler β)).Runs v w (.ok b)) :
    ∃ a, p.Runs v w (.ok a) := by
  obtain ⟨u, a, hp, rfl, -⟩ := Prog.runs_bind_ok.mp h
  exact ⟨a, hp⟩

/-- A change of status that approves nothing. -/
theorem changeStatus_supplies {rule : ℤ → Except AppError ℤ} {status : ℤ} (hv : v.NoOverReceipt)
    (hrule : ∀ old new, rule old = .ok new → old ≠ 3 ∧ new ≠ 3)
    (h : (changeStatus ctx id (transition id rule)).Runs v w (.ok status)) :
    Supplies (fun _ => 0) v w := by
  obtain ⟨po, logs, hpo, hstatus, rfl⟩ := changeStatus_runs_ok h
  obtain ⟨hfrom, hto⟩ := hrule _ _ hstatus
  have hset := supplies_setStatus logs status hv hpo hfrom
  simpa only [if_neg hto] using hset

theorem approve_supplies (hv : v.NoOverReceipt)
    (h : (PurchaseOrderApprove.execute ctx id).Runs v w (.ok r)) :
    Supplies (fun item =>
      if (v.purchaseOrders.get? id).any fun po =>
        po.status = PurchaseOrderStatus.pendingSupervisor.toI16
      then v.openQty id item else 0) v w := by
  simp only [PurchaseOrderApprove.execute, Prog.runs_bind_ok, Prog.pure_eq, Prog.runs_ret] at h
  obtain ⟨u, status, h, rfl, -⟩ := h
  obtain ⟨po, logs, hpo, hstatus, rfl⟩ := changeStatus_runs_ok h
  -- Only the approval by the supervisor approves.
  have happroves : po.status ≠ 3 ∧
      (status = 3 ↔ po.status = PurchaseOrderStatus.pendingSupervisor.toI16) := by
    obtain ⟨hfrom, rfl⟩ | ⟨hfrom, rfl⟩ := poFlow_approveStatus.mp hstatus <;> rw [hfrom] <;> decide
  obtain ⟨hfrom, hto⟩ := happroves
  have hset := supplies_setStatus logs status hv hpo hfrom
  simpa only [hpo, Option.any_some, decide_eq_true_eq, hto] using hset

theorem delete_supplies (hv : v.NoOverReceipt)
    (h : (PurchaseOrderDelete.execute ctx id).Runs v w (.ok r)) : Supplies (fun _ => 0) v w := by
  simp only [PurchaseOrderDelete.execute, lockOrder, updateStatus, Prog.runs_bind_ok,
    Prog.runs_selectForUpdate, Prog.runs_orFail_ok, Prog.runs_ensure_ok, Prog.runs_update,
    Prog.pure_eq, Prog.runs_ret] at h
  obtain ⟨_, po, ⟨v, _, ⟨rfl, hfound⟩, rfl, hpo⟩, _, _, ⟨rfl, hdraft⟩, _, _, ⟨rfl, -⟩, _, _,
    hrecord, rfl, -⟩ := h
  obtain ⟨-, audit, rfl⟩ := AuditService.record_runs hrecord
  have hget := (Except.ok.inj hfound).symm.trans hpo
  have hfrom : po.status ≠ 3 := by
    rw [of_decide_eq_true hdraft]
    decide
  exact supplies_setStatus _ (-1) hv hget hfrom

theorem insertLine_supplies {l : PurchaseOrderLine} (hv : v.NoOverReceipt)
    (hl : l.receivedQty ≤ l.quantity) (hdraft : v.isApproved l.orderId = false) :
    Supplies (fun _ => 0) v { v with purchaseOrderLines := v.purchaseOrderLines.insert l } := by
  refine .of_inTransit rfl rfl (fun l' hl' => ?_) fun item => ?_
  · rcases Table.mem_rows_insert hl' with hold | rfl
    · exact hv l' hold
    · exact hl
  · rw [inTransit_insertLine hdraft, add_zero]

/-- A new order is a draft, of which nothing is on its way. -/
theorem create_supplies {request : PurchaseOrderCreate.CreatePurchaseOrderRequest}
    (hv : v.NoOverReceipt) (hproper : ∀ line ∈ request.lines, 0 ≤ line.quantity)
    (h : (PurchaseOrderCreate.execute ctx request).Runs v w (.ok r)) :
    Supplies (fun _ => 0) v w := by
  simp only [PurchaseOrderCreate.execute, Prog.runs_bind_ok, Prog.runs_ensure_ok, ask,
    Prog.runs_ask, insertRow, Prog.runs_insert_ok, unique_eq_none, Prog.pure_eq, Prog.runs_ret] at h
  obtain ⟨_, _, ⟨rfl, -⟩, _, id, ⟨rfl, -⟩, _, code, hcode, v, lines, hlines, _, _, ⟨hfree, rfl⟩, u,
    _, hloop, _, _, hrecord, rfl, -⟩ := h
  obtain rfl := (DocNumberer.nextNumber_preserves (fun db => db) _ _).runs hcode
  obtain ⟨rfl, hmap⟩ := lineIds_runs_ok hlines
  have hnone := Table.has_eq_false.mp hfree
  let row : PurchaseOrder := {
    id := id, supplierId := request.supplierId, status := 0
    totalAmount := PurchaseOrderCreate.totalAmount request.lines }
  have hstored : Supplies (fun _ => 0) v (storeOrder row v) := by
    refine .of_inTransit rfl rfl hv fun item => ?_
    rw [inTransit_storeDraft rfl item hnone, add_zero]
  have hdraft : (storeOrder row v).isApproved id = false := by
    rw [Db.isApproved, storeOrder, Table.get?_insert_self (r := row) hnone]
    rfl
  -- the order stays a draft while its lines are inserted
  have hu : Supplies (fun _ => 0) v u ∧ u.isApproved id = false := by
    refine Prog.runs_forEach_ok (P := fun x => Supplies (fun _ => 0) v x ∧ x.isApproved id = false)
      (fun line hline x y hx hy => ?_) ⟨hstored, hdraft⟩ hloop
    obtain ⟨-, rfl⟩ := PurchaseOrderCreate.insertLine_runs_ok.mp hy
    refine ⟨?_, hx.2⟩
    have hstep := hx.1.trans (insertLine_supplies hx.1.noOverReceipt
      (l := PurchaseOrderCreate.orderLine line.2 line.1.1 id line.1.2) ?_ hx.2)
    · simpa using hstep
    · refine hproper _ ?_
      rw [← hmap]
      exact List.mem_map_of_mem (List.fst_mem_of_mem_zipIdx hline)
  simp only [PurchaseOrderCreate.recordOrder, Prog.runs_bind_ok, Prog.runs_select,
    Prog.runs_orFail_ok] at hrecord
  obtain ⟨_, _, ⟨rfl, -⟩, _, order, ⟨rfl, -⟩, hrecord⟩ := hrecord
  obtain ⟨-, audit, rfl⟩ := AuditService.record_runs hrecord
  exact ⟨hu.1.items, hu.1.noOverReceipt, hu.1.position⟩

end Orders

/-! ## Receipts -/

section Receipts

open PurchaseReceiptCreate

variable {orderId receiptId : ID} {line : CreateReceiptLine} {v w : Db}

/-- A receipt line of the item that was ordered brings what was on its way. -/
theorem receiveLine_supplies (hv : v.NoOverReceipt) (happroved : v.isApproved orderId = true)
    (hagree : ∀ ol, v.purchaseOrderLines.get? line.orderLineId = some ol →
      ol.itemId = line.itemId)
    (h : (receiveLine .exact orderId receiptId line).Runs v w (.ok ())) :
    Supplies (fun _ => 0) v w ∧ w.purchaseOrders = v.purchaseOrders ∧
      ∀ id, (w.purchaseOrderLines.get? id).map PurchaseOrderLine.itemId =
        (v.purchaseOrderLines.get? id).map PurchaseOrderLine.itemId := by
  obtain ⟨lineId, ol, u, hol, rfl, hle, -, hreceive, hcosts⟩ := receiveLine_runs_ok .exact h
  rw [Arith.exact_add] at hle hreceive
  have hitem := hagree ol hol
  have hkept := (InventoryLedger.receive_preserves _).runs hreceive
  obtain ⟨-, hposts⟩ := InventoryLedger.receive_runs.mp hreceive
  have hlines : w.purchaseOrderLines = (writeLine lineId receiptId line
      (ol.receivedQty + line.quantity) v).purchaseOrderLines :=
    (congrArg Db.purchaseOrderLines hcosts :).trans (congrArg Db.purchaseOrderLines hkept :)
  have horders : w.purchaseOrders = v.purchaseOrders :=
    (congrArg Db.purchaseOrders hcosts :).trans (congrArg Db.purchaseOrders hkept :)
  have hitems : w.items = v.items :=
    (congrArg Db.items hcosts :).trans (congrArg Db.items hkept :)
  refine ⟨⟨hitems, fun l hl => ?_, fun item => ?_⟩, horders, fun id => ?_⟩
  · have hmem : l ∈ (v.purchaseOrderLines.modify line.orderLineId
        (PurchaseOrderLine.receive (ol.receivedQty + line.quantity))
        (PurchaseOrderLine.receive_id (ol.receivedQty + line.quantity))).rows := by
      rw [hlines] at hl
      exact hl
    rcases Table.mem_rows_modify hmem with hold | ⟨l₀, hl₀, rfl⟩
    · exact hv l hold
    · obtain rfl := Option.some.inj (hl₀.symm.trans hol)
      exact hle
  · have htransit : w.inTransit item = (writeLine lineId receiptId line
        (ol.receivedQty + line.quantity) v).inTransit item :=
      Db.inTransit_congr hlines (fun l _ => by rw [Db.isApproved, horders]; rfl) item
    have hstock : w.total item = u.total item := (congrArg (Db.total · item) hcosts :)
    have htotal := hposts.total rfl item
    have hsame : (writeLine lineId receiptId line (ol.receivedQty + line.quantity) v).total item =
      v.total item := rfl
    have hreceived : (receiveCommand lineId line).itemId = line.itemId := rfl
    have hquantity : (receiveCommand lineId line).quantity = line.quantity := rfl
    rw [Arith.exact_add, add_sub_cancel_left, hsame, hreceived, hquantity, ← hitem] at htotal
    rw [inTransit_writeLine hol happroved (hv ol (Table.mem_of_get? hol)) hle item] at htransit
    rw [Db.position, Db.position, htransit, hstock, htotal]
    ring
  · rw [hlines, writeLine, Table.get?_modify]
    split
    · rw [Option.map_map]
      rfl
    · rfl

/-- The header is refused unless the order is approved. -/
theorem createHeader_approved {request : CreateReceiptRequest} {response : CreateReceiptResponse}
    (h : (createHeader request).Runs v w (.ok response)) : v.isApproved request.orderId = true := by
  simp only [createHeader, Prog.runs_bind_ok, Prog.runs_selectForUpdate, Prog.runs_orFail_ok,
    Prog.runs_ensure_ok] at h
  obtain ⟨_, _, ⟨rfl, hfound⟩, _, order, ⟨rfl, horder⟩, v, _, ⟨rfl, hstatus⟩, -⟩ := h
  rw [Db.isApproved, (Except.ok.inj hfound).symm.trans horder]
  exact hstatus

theorem receipt_supplies {ctx : Operator} {request : CreateReceiptRequest} (hv : v.NoOverReceipt)
    (hagree : ∀ line ∈ request.lines, ∀ ol,
      v.purchaseOrderLines.get? line.orderLineId = some ol → ol.itemId = line.itemId)
    (h : ((Request.receipt ctx request).run .exact).Runs v w (.ok ())) :
    Supplies (fun _ => 0) v w := by
  obtain ⟨response, h⟩ := Prog.runs_discard h
  simp only [PurchaseReceiptCreate.execute, Prog.runs_bind_ok, Prog.pure_eq, Prog.runs_ret] at h
  obtain ⟨u, header, hheader, u', _, hlines, _, _, hrecord, rfl, -⟩ := h
  have happroved := createHeader_approved hheader
  obtain ⟨receipt, rfl⟩ := createHeader_runs_ok hheader
  have hstart : Supplies (fun _ => 0) v
      { v with purchaseReceipts := v.purchaseReceipts.insert receipt } :=
    ⟨rfl, hv, fun _ => (add_zero _).symm⟩
  -- each line finds the order approved, and its order lines with their items
  have hu' : Supplies (fun _ => 0) v u' ∧ u'.purchaseOrders = v.purchaseOrders ∧
      ∀ id, (u'.purchaseOrderLines.get? id).map PurchaseOrderLine.itemId =
        (v.purchaseOrderLines.get? id).map PurchaseOrderLine.itemId := by
    refine Prog.runs_forEach_ok
      (P := fun x => Supplies (fun _ => 0) v x ∧ x.purchaseOrders = v.purchaseOrders ∧
        ∀ id, (x.purchaseOrderLines.get? id).map PurchaseOrderLine.itemId =
          (v.purchaseOrderLines.get? id).map PurchaseOrderLine.itemId)
      (fun line hline x y hx hy => ?_) ⟨hstart, rfl, fun _ => rfl⟩ hlines
    obtain ⟨hsupplies, horders, hitems⟩ := hx
    have hxa : x.isApproved request.orderId = true := by
      rw [Db.isApproved, horders]
      exact happroved
    have hsame : ∀ ol, x.purchaseOrderLines.get? line.orderLineId = some ol →
        ol.itemId = line.itemId := by
      intro ol hol
      have hmap := hitems line.orderLineId
      rw [hol] at hmap
      obtain ⟨ol₀, hol₀, hitem⟩ := Option.map_eq_some_iff.mp hmap.symm
      rw [← hitem]
      exact hagree line hline ol₀ hol₀
    obtain ⟨hstep, horders', hitems'⟩ :=
      receiveLine_supplies hsupplies.noOverReceipt hxa hsame hy
    refine ⟨?_, horders'.trans horders, fun id => (hitems' id).trans (hitems id)⟩
    simpa using hsupplies.trans hstep
  have hkept := (recordHeader_preserves ctx _).runs hrecord
  obtain ⟨hitems, hover, hposition⟩ := hu'.1
  refine ⟨(congrArg Db.items hkept :).trans hitems, ?_, fun item => ?_⟩
  · have hsame : w.purchaseOrderLines = u'.purchaseOrderLines :=
      (congrArg Db.purchaseOrderLines hkept :)
    intro l hl
    rw [hsame] at hl
    exact hover l hl
  · rw [← hposition]
    exact (congrArg (Db.position · item) hkept :)

end Receipts

/-! ## Everything else that moves stock -/

/-- Items, the status of orders, and what of their lines counts as in transit. -/
def Db.procurement (db : Db) : Table ItemRow.id × Table PurchaseOrder.id × List (ID × ID × ℤ × ℤ) :=
  (db.items, db.purchaseOrders,
    db.purchaseOrderLines.rows.map fun l => (l.orderId, l.itemId, l.quantity, l.receivedQty))

section Moves

variable {v w : Db}

/-- What is in transit is a matter of procurement. -/
theorem inTransit_of_procurement (h : w.procurement = v.procurement) (item : ID) :
    w.inTransit item = v.inTransit item := by
  have hsum : ∀ db : Db, db.inTransit item = ((db.purchaseOrderLines.rows.map fun l =>
      (l.orderId, l.itemId, l.quantity, l.receivedQty)).map fun (x : ID × ID × ℤ × ℤ) =>
        if x.2.1 = item ∧ x.2.2.1 > x.2.2.2 ∧ db.isApproved x.1 = true then x.2.2.1 - x.2.2.2
        else 0).sum := by
    intro db
    rw [Db.inTransit, Table.tally, sum_filter, List.map_map]
    refine congrArg List.sum (List.map_congr_left fun l _ => ?_)
    simp only [Function.comp_apply, decide_eq_true_eq, Db.isApproved]
    congr
  obtain ⟨-, h⟩ := Prod.mk.inj h
  obtain ⟨horders, hlines⟩ := Prod.mk.inj h
  have happroved : w.isApproved = v.isApproved := by
    funext orderId
    rw [Db.isApproved, Db.isApproved, horders]
  rw [hsum w, hsum v, hlines, happroved]

theorem noOverReceipt_of_procurement (h : w.procurement = v.procurement)
    (hv : v.NoOverReceipt) : w.NoOverReceipt := by
  intro l hl
  obtain ⟨-, h⟩ := Prod.mk.inj h
  obtain ⟨-, hlines⟩ := Prod.mk.inj h
  have hmem : (l.orderId, l.itemId, l.quantity, l.receivedQty) ∈
      w.purchaseOrderLines.rows.map fun l => (l.orderId, l.itemId, l.quantity, l.receivedQty) :=
    List.mem_map_of_mem hl
  rw [hlines] at hmem
  obtain ⟨l', hl', he⟩ := List.mem_map.mp hmem
  obtain ⟨-, -, hquantity, hreceived⟩ := by simpa using he
  have hle := hv l' hl'
  omega

/-- Movements that leave procurement alone change the position by what they move. -/
theorem Supplies.of_movements {ms : List Movement} {rows : List InventoryTransaction}
    (hv : v.NoOverReceipt) (hbooked : Booked .exact ms v rows w)
    (hsame : w.procurement = v.procurement) : Supplies (fun item => netMoved item ms) v w := by
  refine ⟨congrArg Prod.fst hsame, noOverReceipt_of_procurement hsame hv, fun item => ?_⟩
  rw [Db.position, Db.position, hbooked.total item, inTransit_of_procurement hsame]
  ring

theorem delivery_keeps (ctx : Operator) (request : SalesDeliveryCreate.CreateDeliveryRequest) :
    ((Request.delivery ctx request).run .exact).Preserves Db.procurement := by
  refine Prog.Preserves.bind ?_ fun _ => Prog.preserves_ret _
  refine ((SalesDeliveryCreate.createHeader_preserves ctx request).factor fun _ => rfl).bind
    fun header => ?_
  refine (Prog.preserves_forEach fun line _ => ?_).bind fun _ => Prog.preserves_ret _
  refine (Prog.preserves_ask _).bind fun lineId => ?_
  refine (Prog.preserves_selectForUpdate _ _).bind fun found => ?_
  refine (Prog.preserves_orFail _ _).bind fun ol => ?_
  refine (Prog.preserves_ensure _ _).bind fun _ => ?_
  refine (Prog.preserves_insert (by intro _; rfl)).bind fun _ => ?_
  refine (Prog.preserves_update (by intro _; rfl)).bind fun _ => ?_
  exact (InventoryLedger.issue_preserves _).factor fun _ => rfl

theorem pick_keeps (ctx : Operator) (id : ID) (request : WorkOrderMaterialPick.PickRequest) :
    ((Request.pick ctx id request).run .exact).Preserves Db.procurement := by
  refine (WorkOrderMaterialPick.lockReleased_preserves _ _).bind fun before => ?_
  refine (Prog.preserves_forEach fun item _ => ?_).bind fun _ => ?_
  · exact WorkOrderMaterialPick.pickItem_preserves .exact id item (fun _ _ => rfl) fun _ => rfl
  · exact (WorkOrderMaterialPick.recordPick_preserves _ _ _).factor fun _ => rfl

theorem createReturn_keeps (ctx : Operator) (request : PurchaseReturnCreate.CreateReturnRequest) :
    ((Request.createReturn ctx request).run .exact).Preserves Db.procurement := by
  refine Prog.Preserves.bind ?_ fun _ => Prog.preserves_ret _
  refine ((PurchaseReturnCreate.createHeader_preserves request).factor fun _ => rfl).bind
    fun header => ?_
  refine (Prog.preserves_forEach fun line _ => ?_).bind fun _ => ?_
  · exact (Prog.preserves_ask _).bind fun lineId => Prog.preserves_insert (by intro _; rfl)
  · exact ((PurchaseReturnCreate.recordHeader_preserves ctx _).factor fun _ => rfl).bind
      fun _ => Prog.preserves_ret _

/-- A return counts on the order line, but not what has been received. -/
theorem giveBack_keeps (lineId : ID) (quantity : ℤ) (db : Db) :
    Db.procurement { db with
      purchaseOrderLines := db.purchaseOrderLines.modify lineId
        (PurchaseOrderLine.giveBack quantity) (PurchaseOrderLine.giveBack_id quantity) } =
      db.procurement := by
  refine Prod.ext rfl (Prod.ext rfl ?_)
  show ((db.purchaseOrderLines.rows.map fun l => if l.id = lineId then l.giveBack quantity
    else l).map fun l => (l.orderId, l.itemId, l.quantity, l.receivedQty)) = _
  rw [List.map_map]
  refine List.map_congr_left fun l _ => ?_
  rw [Function.comp_apply]
  split <;> rfl

theorem approveReturn_keeps (ctx : Operator) (id : ID) :
    ((Request.approveReturn ctx id).run .exact).Preserves Db.procurement := by
  refine ((PurchaseReturnApprove.approveHeader_preserves ctx id).factor fun _ => rfl).bind
    fun _ => ?_
  refine (Prog.preserves_select _).bind fun lines => ?_
  refine Prog.preserves_forEach fun line _ => ?_
  refine ((InventoryLedger.forceIssue_preserves _).factor fun _ => rfl).bind fun _ => ?_
  exact Prog.preserves_writeIf fun db => giveBack_keeps _ _ db

theorem approveTransfer_keeps (ctx : Operator) (id : ID) :
    ((Request.approveTransfer ctx id).run .exact).Preserves Db.procurement := by
  refine ((Prog.preserves_selectForUpdate _ _).bind fun _ => Prog.preserves_orFail _ _).bind
    fun before => ?_
  refine ((StockTransferApprove.approve_preserves id).factor fun _ => rfl).bind fun ends => ?_
  refine (Prog.preserves_select _).bind fun lines => ?_
  refine (Prog.preserves_forEach fun item _ => ?_).bind fun _ => ?_
  · exact (InventoryLedger.transfer_preserves _ _ _ _ _ _).factor fun _ => rfl
  · exact (StockTransferApprove.recordApproval_preserves _ _ _).factor fun _ => rfl

theorem productionReceipt_keeps (ctx : Operator)
    (request : ProductionReceiptCreate.CreateReceiptRequest) :
    ((Request.productionReceipt ctx request).run .exact).Preserves Db.procurement := by
  refine Prog.Preserves.bind ?_ fun _ => Prog.preserves_ret _
  refine ((ProductionReceiptCreate.createHeader_preserves request).factor fun _ => rfl).bind
    fun header => ?_
  refine ((InventoryLedger.receive_preserves _).factor fun _ => rfl).bind fun _ => ?_
  exact ((ProductionReceiptCreate.recordHeader_preserves ctx _).factor fun _ => rfl).bind
    fun _ => Prog.preserves_ret _

/-- Nothing that moves stock touches procurement, receipts of orders apart. -/
theorem Request.keeps (request : Request) (h : ∀ ctx r, request ≠ .receipt ctx r) :
    (request.run .exact).Preserves Db.procurement := by
  cases request with
  | delivery ctx r => exact delivery_keeps ctx r
  | receipt ctx r => exact absurd rfl (h ctx r)
  | pick ctx id r => exact pick_keeps ctx id r
  | createReturn ctx r => exact createReturn_keeps ctx r
  | submitReturn id =>
    exact (PurchaseReturnApprove.submitExecute_preserves id).factor fun _ => rfl
  | approveReturn ctx id => exact approveReturn_keeps ctx id
  | approveTransfer ctx id => exact approveTransfer_keeps ctx id
  | productionReceipt ctx r => exact productionReceipt_keeps ctx r

end Moves

/-! ## Runs -/

/-- What an order request does to the positions. -/
theorem order_supplies {request : OrderRequest} {hr : request.isReceipt = false} {v w : Db}
    (hv : v.NoOverReceipt) (hproper : (SupplyRequest.order request hr).Proper v)
    (h : request.run.Runs v w (.ok ())) :
    Supplies (fun item => (SupplyRequest.order request hr).approved v item) v w := by
  cases request with
  | create ctx r =>
    obtain ⟨response, h⟩ := Prog.runs_discard h
    exact create_supplies hv hproper h
  | submit ctx id =>
    obtain ⟨response, h⟩ := Prog.runs_discard h
    obtain ⟨status, h⟩ := runs_result h
    exact changeStatus_supplies hv (fun _ _ hmoves => by
      obtain ⟨rfl, rfl⟩ := poFlow_submitStatus.mp hmoves
      decide) h
  | approve ctx id =>
    obtain ⟨response, h⟩ := Prog.runs_discard h
    exact approve_supplies hv h
  | reject ctx id =>
    obtain ⟨response, h⟩ := Prog.runs_discard h
    obtain ⟨status, h⟩ := runs_result h
    exact changeStatus_supplies hv (fun _ _ hmoves => by
      obtain ⟨rfl | rfl, rfl⟩ := poFlow_rejectStatus.mp hmoves <;> decide) h
  | delete ctx id =>
    obtain ⟨response, h⟩ := Prog.runs_discard h
    exact delete_supplies hv h
  | receipt ctx r => cases hr

theorem move_supplies {request : Request} {v w : Db} (hv : v.NoOverReceipt)
    (hproper : (SupplyRequest.move request).Proper v)
    (h : (request.run .exact).Runs v w (.ok ())) :
    Supplies (fun item => (SupplyRequest.move request).moved v item) v w := by
  by_cases hreceipt : ∃ ctx r, request = .receipt ctx r
  · obtain ⟨ctx, r, rfl⟩ := hreceipt
    exact receipt_supplies hv hproper h
  · have hother : ∀ ctx r, request ≠ .receipt ctx r := fun ctx r he => hreceipt ⟨ctx, r, he⟩
    obtain ⟨rows, heffect⟩ := request.effect h
    have hsupplies := Supplies.of_movements hv heffect.booked ((request.keeps hother).runs h)
    have hmoved : ∀ item, (SupplyRequest.move request).moved v item =
        netMoved item (request.movements v) := by
      intro item
      cases request <;> first | rfl | exact absurd rfl (hother _ _)
    simpa only [hmoved] using hsupplies

/-- A request that goes through changes each position by what it gains. -/
theorem SupplyRequest.supplies (request : SupplyRequest) {v w : Db} (hv : v.NoOverReceipt)
    (hproper : request.Proper v) (h : request.run.Runs v w (.ok ())) :
    Supplies (fun item => request.gain v item) v w := by
  cases request with
  | order request hr =>
    have hsupplies := order_supplies hv hproper h
    refine ⟨hsupplies.items, hsupplies.noOverReceipt, fun item => ?_⟩
    rw [hsupplies.position, gain, moved, add_zero]
  | move request =>
    have hsupplies := move_supplies hv hproper h
    refine ⟨hsupplies.items, hsupplies.noOverReceipt, fun item => ?_⟩
    have happroved : (move request).approved v item = 0 := rfl
    rw [hsupplies.position, gain, happroved, zero_add]

/-- What the requests that went through have gained of an item. -/
def gained (item : ID) (xs : List (Service Db AppError Unit SupplyRequest)) : ℤ :=
  (xs.map fun x => if x.result.isOk then x.request.gain x.found item else 0).sum

/-- Along every run the positions change by what is gained. -/
theorem supplies_of_services {v w : Db} {xs : List (Service Db AppError Unit SupplyRequest)}
    (h : InOrder SupplyRequest.run v xs w) (hproper : ∀ x ∈ xs, x.request.Proper x.found)
    (hv : v.NoOverReceipt) : Supplies (fun item => gained item xs) v w := by
  induction xs generalizing v with
  | nil =>
    obtain rfl : w = v := h
    exact .refl hv
  | cons x xs ih =>
    obtain ⟨rfl, hx, hxs⟩ := h
    have hfirst : Supplies (fun item =>
        if x.result.isOk then x.request.gain x.found item else 0) x.found x.left := by
      obtain ⟨request, found, left, result⟩ := x
      cases result with
      | ok u =>
        exact request.supplies hv (hproper _ List.mem_cons_self) (Prog.transacts_ok.mp hx)
      | error e =>
        obtain rfl : left = found := hx.of_error
        exact .refl hv
    have hrest := ih hxs (fun y hy => hproper y (List.mem_cons_of_mem x hy)) hfirst.noOverReceipt
    simpa only [gained, List.map_cons, List.sum_cons] using hfirst.trans hrest

end Slab
