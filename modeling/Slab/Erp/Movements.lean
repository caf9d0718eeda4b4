import Slab.Erp.Ledger

/-!
# Movements and the books they are entered in

What the handlers have in common: each one is a list of stock movements, and each movement is
entered in the journal, in its stock, and in the counter of the document it is booked against.

## Main definitions

- `Movement` — one stock movement, with the row it is booked against
- `Db.itemOf`, `Db.counter` — the item and the counter of such rows
- `Replays` — journal rows that take all stocks from one state to another
- `Booked`, `Counted` — journal and stock, counters and items, after a list of movements

## Main results

- `Booked.trans`, `Counted.trans` — the books of two lists of movements, one after the other
- `booked_issue`, `booked_receive`, `booked_forceIssue` — one ledger operation
-/

namespace Slab

open Txn

namespace TransactionType

/-- The types that the ledger books with a plus. -/
def isReceipt : TransactionType → Bool
  | inbound => true
  | transferIn => true
  | _ => false

/-- The types that `issue` books, which looks whether the stock suffices. -/
def isIssue : TransactionType → Bool
  | outbound => true
  | transferOut => true
  | materialPick => true
  | _ => false

end TransactionType

/-- The row that a movement is booked against. -/
inductive Target where
  | salesOrderLine (id : ID)
  | purchaseOrderLine (id : ID)
  | material (id : ID)
  | returnLine (id : ID)
  | workOrder (id : ID)
  | transferItem (id : ID)
deriving DecidableEq

/-- The counters that movements raise. -/
inductive Counter where
  | delivered (orderLineId : ID)
  | received (orderLineId : ID)
  | returned (orderLineId : ID)
  | picked (materialId : ID)
deriving DecidableEq

structure Movement where
  against : Target
  counter : Option Counter
  itemId : ID
  warehouseId : ID
  quantity : ℤ
  txType : TransactionType
  referenceType : String
deriving DecidableEq

namespace Db

/-- The item of the row; a return line is booked against the receipt line it refers to. -/
def itemOf (db : Db) : Target → Option ID
  | .salesOrderLine id => (db.salesOrderLines.get? id).map SalesOrderLine.itemId
  | .purchaseOrderLine id => (db.purchaseOrderLines.get? id).map PurchaseOrderLine.itemId
  | .material id => (db.workOrderMaterials.get? id).map WorkOrderMaterial.itemId
  | .returnLine id => (db.purchaseReturnLines.get? id).bind fun l =>
    (db.purchaseReceiptLines.get? l.receiptLineId).map PurchaseReceiptLine.itemId
  | .workOrder id => (db.workOrders.get? id).map WorkOrder.itemId
  | .transferItem id => (db.stockTransferItems.get? id).map StockTransferItem.itemId

def counter (db : Db) : Counter → Option ℤ
  | .delivered id => (db.salesOrderLines.get? id).map SalesOrderLine.deliveredQty
  | .received id => (db.purchaseOrderLines.get? id).map PurchaseOrderLine.receivedQty
  | .returned id => (db.purchaseOrderLines.get? id).map PurchaseOrderLine.returnedQty
  | .picked id => (db.workOrderMaterials.get? id).map fun m => m.pickedQty.getD 0

end Db

/-! ## Journal and stock -/

/-- The stocks after a journal row. -/
def setStock (s : ID → ID → ℤ) (t : InventoryTransaction) : ID → ID → ℤ :=
  fun item warehouse => if (item, warehouse) = (t.itemId, t.warehouseId) then t.afterQuantity
    else s item warehouse

/-- Every row starts from the stock as it then is, and leaves it as the row says; no stock
changes otherwise. -/
def Replays : (ID → ID → ℤ) → List InventoryTransaction → (ID → ID → ℤ) → Prop
  | s, [], s' => s' = s
  | s, t :: ts, s' => t.beforeQuantity = s t.itemId t.warehouseId ∧ Replays (setStock s t) ts s'

theorem Replays.append {s s' s'' : ID → ID → ℤ} {ts us : List InventoryTransaction}
    (h : Replays s ts s') (h' : Replays s' us s'') : Replays s (ts ++ us) s'' := by
  induction ts generalizing s with
  | nil =>
    obtain rfl : s' = s := h
    exact h'
  | cons t ts ih => exact ⟨h.1, ih h.2⟩

/-- The stock that a movement leaves. -/
def Movement.after (ar : Arith) (m : Movement) (before : ℤ) : ℤ :=
  if m.txType.isReceipt then ar.add before m.quantity else ar.sub before m.quantity

/-- The journal row is the movement's. -/
structure Movement.Books (ar : Arith) (m : Movement) (row : InventoryTransaction) : Prop where
  item : row.itemId = m.itemId
  warehouse : row.warehouseId = m.warehouseId
  quantity : row.quantity = m.quantity
  txType : row.transactionType = m.txType.toI16
  reference : row.referenceType = m.referenceType
  after : row.afterQuantity = m.after ar row.beforeQuantity
  enough : m.txType.isIssue = true → m.quantity ≤ row.beforeQuantity

/-- The journal has the rows of the movements, and the stocks are what the rows say. -/
structure Booked (ar : Arith) (ms : List Movement) (v : Db) (rows : List InventoryTransaction)
    (w : Db) : Prop where
  journal : w.inventoryTransactions = v.inventoryTransactions ++ rows
  stock : Replays v.stock rows w.stock
  books : List.Forall₂ (Movement.Books ar) ms rows

section Booked

variable {ar : Arith} {ms ms' : List Movement} {u v w : Db} {rows rows' : List InventoryTransaction}

/-- Nothing is booked where stock and journal stay as they are. -/
theorem Booked.of_eq (hs : w.inventories = v.inventories)
    (hj : w.inventoryTransactions = v.inventoryTransactions) : Booked ar [] v [] w := by
  refine ⟨by rw [hj, List.append_nil], ?_, .nil⟩
  show w.stock = v.stock
  funext item warehouse
  rw [Db.stock, Db.quantity?, hs, Db.stock, Db.quantity?]

theorem Booked.trans (h : Booked ar ms v rows u) (h' : Booked ar ms' u rows' w) :
    Booked ar (ms ++ ms') v (rows ++ rows') w where
  journal := by rw [h'.journal, h.journal, List.append_assoc]
  stock := h.stock.append h'.stock
  books := List.rel_append h.books h'.books

/-- The movement of a ledger command, wherever it is booked. -/
structure Movement.Of (m : Movement) (cmd : LedgerCommand) : Prop where
  item : m.itemId = cmd.itemId
  warehouse : m.warehouseId = cmd.warehouseId
  quantity : m.quantity = cmd.quantity
  txType : m.txType = cmd.txType
  reference : m.referenceType = cmd.referenceType

/-- A posted command books its movement. -/
theorem booked_posts {m : Movement} {cmd : LedgerCommand} {after : ℤ} (hm : m.Of cmd)
    (h : Db.Posts cmd (v.stock cmd.itemId cmd.warehouseId) after v w)
    (hafter : after = m.after ar (v.stock cmd.itemId cmd.warehouseId))
    (henough : m.txType.isIssue = true → cmd.quantity ≤ v.stock cmd.itemId cmd.warehouseId) :
    ∃ row, Booked ar [m] v [row] w := by
  obtain ⟨invId, txId, hw⟩ := h
  refine ⟨cmd.row txId (v.stock cmd.itemId cmd.warehouseId) after, ?_, ⟨rfl, ?_⟩, .cons ?_ .nil⟩
  · rw [hw, Db.inventoryTransactions_post]
  · show w.stock = setStock v.stock _
    funext item warehouse
    exact Db.Posts.stock ⟨invId, txId, hw⟩ item warehouse
  · exact ⟨hm.item.symm, hm.warehouse.symm, hm.quantity.symm, by rw [hm.txType]; rfl,
      hm.reference.symm, hafter, fun hi => hm.quantity ▸ henough hi⟩

theorem booked_issue {m : Movement} {cmd : LedgerCommand} (hm : m.Of cmd)
    (hissue : m.txType.isReceipt = false) (h : (InventoryLedger.issue ar cmd).Runs v w (.ok ())) :
    ∃ row, Booked ar [m] v [row] w := by
  obtain ⟨hle, hposts⟩ := InventoryLedger.issue_runs_ok.mp h
  refine booked_posts hm hposts ?_ fun _ => hle
  simp [Movement.after, hissue, hm.quantity]

theorem booked_receive {m : Movement} {cmd : LedgerCommand} (hm : m.Of cmd)
    (hreceipt : m.txType.isReceipt = true)
    (h : (InventoryLedger.receive ar cmd).Runs v w (.ok ())) : ∃ row, Booked ar [m] v [row] w := by
  obtain ⟨-, hposts⟩ := InventoryLedger.receive_runs.mp h
  refine booked_posts hm hposts ?_ fun hi => ?_
  · simp [Movement.after, hreceipt, hm.quantity]
  · cases ht : m.txType <;> simp_all [TransactionType.isReceipt, TransactionType.isIssue]

theorem booked_forceIssue {m : Movement} {cmd : LedgerCommand} (hm : m.Of cmd)
    (htype : m.txType = .purchaseReturn)
    (h : (InventoryLedger.forceIssue ar cmd).Runs v w (.ok ())) :
    ∃ row, Booked ar [m] v [row] w := by
  obtain ⟨-, hposts⟩ := InventoryLedger.forceIssue_runs.mp h
  refine booked_posts hm hposts ?_ fun hi => ?_
  · simp [Movement.after, htype, TransactionType.isReceipt, hm.quantity]
  · rw [htype] at hi
    cases hi

end Booked

/-! ## Counters and items -/

/-- What the movements add to a counter. -/
def amounts (c : Counter) (ms : List Movement) : List ℤ :=
  (ms.filter fun m => m.counter = some c).map Movement.quantity

@[simp] theorem amounts_nil (c : Counter) : amounts c [] = [] := rfl

theorem amounts_eq_nil {c : Counter} {ms : List Movement} (h : ∀ m ∈ ms, m.counter ≠ some c) :
    amounts c ms = [] := by
  simp only [amounts, List.map_eq_nil_iff, List.filter_eq_nil_iff, decide_eq_true_eq]
  exact h

theorem amounts_append (c : Counter) (ms ms' : List Movement) :
    amounts c (ms ++ ms') = amounts c ms ++ amounts c ms' := by
  simp [amounts]

/-- Each counter has gained what the movements add to it, no row has another item, and a new
receipt line is of the item received. -/
structure Counted (ar : Arith) (ms : List Movement) (v w : Db) : Prop where
  counter : ∀ c, w.counter c = (v.counter c).map fun q => ar.addAll q (amounts c ms)
  item : ∀ t i, v.itemOf t = some i → w.itemOf t = some i
  receipt : ∀ l ∈ w.purchaseReceiptLines.rows, l ∈ v.purchaseReceiptLines.rows ∨
    ∃ m ∈ ms, m.against = .purchaseOrderLine l.orderLineId ∧ m.itemId = l.itemId

section Counted

variable {ar : Arith} {ms ms' : List Movement} {u v w : Db}

theorem Counted.trans (h : Counted ar ms v u) (h' : Counted ar ms' u w) :
    Counted ar (ms ++ ms') v w := by
  refine ⟨fun c => ?_, fun t i hi => h'.item t i (h.item t i hi), fun l hl => ?_⟩
  · rw [h'.counter, h.counter, Option.map_map, amounts_append]
    congr 1
    funext q
    exact (Arith.addAll_append q _ _).symm
  · rcases h'.receipt l hl with hl | ⟨m, hm, hl⟩
    · rcases h.receipt l hl with hl | ⟨m, hm, hl⟩
      · exact .inl hl
      · exact .inr ⟨m, List.mem_append_left _ hm, hl⟩
    · exact .inr ⟨m, List.mem_append_right _ hm, hl⟩

/-- Nothing is counted where the tables with counters and items stay as they are. -/
theorem Counted.of_eq (hc : ∀ c, w.counter c = v.counter c) (hi : ∀ t, w.itemOf t = v.itemOf t)
    (hr : w.purchaseReceiptLines = v.purchaseReceiptLines) : Counted ar [] v w := by
  refine ⟨fun c => ?_, fun t i h => (hi t).trans h, fun l hl => .inl (hr ▸ hl)⟩
  rw [hc]
  simp

/-- What the ledger does counts nothing. -/
theorem Counted.of_withoutStock
    (h : InventoryLedger.withoutStock w = InventoryLedger.withoutStock v) : Counted ar [] v w := by
  refine .of_eq (fun c => ?_) (fun t => ?_) (congrArg Db.purchaseReceiptLines h :)
  · have := congrArg (fun db => Db.counter db c) h
    cases c <;> exact this
  · have := congrArg (fun db => Db.itemOf db t) h
    cases t <;> exact this

/-- One movement, and the write that counts it. -/
theorem Counted.single {m : Movement}
    (hself : ∀ c, m.counter = some c → w.counter c = (v.counter c).map fun q => ar.add q m.quantity)
    (hother : ∀ c, m.counter ≠ some c → w.counter c = v.counter c)
    (hi : ∀ t i, v.itemOf t = some i → w.itemOf t = some i)
    (hr : ∀ l ∈ w.purchaseReceiptLines.rows, l ∈ v.purchaseReceiptLines.rows ∨
      m.against = .purchaseOrderLine l.orderLineId ∧ m.itemId = l.itemId) : Counted ar [m] v w := by
  refine ⟨fun c => ?_, hi, fun l hl => (hr l hl).imp_right fun h => ⟨m, by simp, h⟩⟩
  by_cases hc : m.counter = some c
  · rw [hself c hc]
    simp [amounts, hc]
  · rw [hother c hc]
    simp [amounts, hc]

/-- Movements without a counter count nothing. -/
theorem Counted.of_uncounted (h : Counted ar [] v w) (hms : ∀ m ∈ ms, m.counter = none) :
    Counted ar ms v w := by
  have hnone : ∀ c, amounts c ms = [] := by
    refine fun c => amounts_eq_nil fun m hm hc => ?_
    rw [hms m hm] at hc
    cases hc
  refine ⟨fun c => ?_, h.item, fun l hl => ?_⟩
  · rw [hnone]
    exact h.counter c
  · rcases h.receipt l hl with hl | ⟨m, hm, -⟩
    · exact .inl hl
    · cases hm

end Counted

/-- The books after a list of movements. -/
structure Effect (ar : Arith) (ms : List Movement) (v : Db) (rows : List InventoryTransaction)
    (w : Db) : Prop where
  booked : Booked ar ms v rows w
  counted : Counted ar ms v w

namespace Effect

variable {ar : Arith} {ms ms' : List Movement} {u v w : Db} {rows rows' : List InventoryTransaction}

theorem trans (h : Effect ar ms v rows u) (h' : Effect ar ms' u rows' w) :
    Effect ar (ms ++ ms') v (rows ++ rows') w :=
  ⟨h.booked.trans h'.booked, h.counted.trans h'.counted⟩

/-- A program that writes document headers, costs and audit rows only enters nothing. -/
theorem of_withoutDocuments (h : w.withoutDocuments = v.withoutDocuments) :
    Effect ar [] v [] w := by
  refine ⟨.of_eq ?_ ?_, .of_eq (fun c => ?_) (fun t => ?_) (congrArg Db.purchaseReceiptLines h :)⟩
  · exact (congrArg Db.inventories h :)
  · exact (congrArg Db.inventoryTransactions h :)
  · have := congrArg (fun db => Db.counter db c) h
    cases c <;> exact this
  · have := congrArg (fun db => Db.itemOf db t) h
    cases t <;> exact this

theorem of_preserves {α : Type} {p : Handler α} {r : Except AppError α}
    (hp : p.Preserves Db.withoutDocuments) (h : p.Runs v w r) : Effect ar [] v [] w :=
  of_withoutDocuments (hp.runs h)

/-- The loop over the lines of a document. -/
theorem forEach {ι : Type} {lines : List ι} {body : ι → Handler Unit} {m : ι → List Movement}
    (hbody : ∀ l ∈ lines, ∀ v w, (body l).Runs v w (.ok ()) → ∃ rows, Effect ar (m l) v rows w)
    (h : (Prog.forEach lines body).Runs v w (.ok ())) :
    ∃ rows, Effect ar (lines.flatMap m) v rows w := by
  induction lines generalizing v with
  | nil =>
    obtain ⟨rfl, -⟩ : w = v ∧ _ := h
    exact ⟨[], of_withoutDocuments rfl⟩
  | cons l ls ih =>
    obtain ⟨u, hl, hls⟩ := Prog.runs_forEach_cons_ok.mp h
    obtain ⟨rows, hrows⟩ := hbody l List.mem_cons_self v u hl
    obtain ⟨rows', hrows'⟩ := ih (fun l' hl' => hbody l' (List.mem_cons_of_mem l hl')) hls
    exact ⟨rows ++ rows', hrows.trans hrows'⟩

end Effect

end Slab
