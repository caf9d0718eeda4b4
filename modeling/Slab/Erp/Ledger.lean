import Slab.Erp.Db

/-!
# The inventory ledger

Every stock movement reads the present quantity, writes the new one and appends a journal
row. The three statements are separate: the read locks the row only if it is there, and the
write replaces whatever it finds by the quantity computed from the read.

## Main definitions

- `InventoryLedger.receive`, `issue`, `forceIssue`, `adjust`, `transfer`
- `Db.post` — what a completed movement does to the database

## Main results

- `receive_runs`, `issue_runs_ok`, … — each operation alone, as a change of the database
- `stock_post_self`, `stock_post_of_ne`, `inventoryTransactions_post` — what `post` changes
-/

namespace Slab

open Txn

/-- What is moved, how it is booked, and which document it comes from. -/
structure LedgerCommand where
  itemId : ID
  warehouseId : ID
  quantity : ℤ
  txType : TransactionType
  referenceType : String
  referenceId : ID
  batchNumber : Option String
deriving DecidableEq

/-- The journal row of a command. -/
def LedgerCommand.row (cmd : LedgerCommand) (id : ID) (before after : ℤ) :
    InventoryTransaction where
  id := id
  itemId := cmd.itemId
  warehouseId := cmd.warehouseId
  transactionType := cmd.txType.toI16
  quantity := cmd.quantity
  batchNumber := cmd.batchNumber
  referenceType := cmd.referenceType
  referenceId := cmd.referenceId
  beforeQuantity := before
  afterQuantity := after

@[simp] theorem LedgerCommand.row_itemId (cmd : LedgerCommand) (id : ID) (before after : ℤ) :
    (cmd.row id before after).itemId = cmd.itemId := rfl

@[simp] theorem LedgerCommand.row_warehouseId (cmd : LedgerCommand) (id : ID)
    (before after : ℤ) : (cmd.row id before after).warehouseId = cmd.warehouseId := rfl

/-- `SET quantity = $4, version = inventories.version + 1`. -/
def Inventory.setQuantity (quantity : ℤ) (r : Inventory) : Inventory :=
  { r with quantity := quantity, version := r.version + 1 }

theorem Inventory.setQuantity_key (quantity : ℤ) (r : Inventory) :
    (r.setQuantity quantity).key = r.key := rfl

namespace Db

/-- `INSERT INTO inventories … ON CONFLICT (item_id, warehouse_id) DO UPDATE`. -/
def upsertInventory (id item warehouse : ID) (quantity : ℤ) (db : Db) : Db :=
  { db with
    inventories :=
      if db.inventories.has (item, warehouse) then
        db.inventories.modify (item, warehouse) (Inventory.setQuantity quantity)
          (Inventory.setQuantity_key quantity)
      else
        db.inventories.insert
          { id := id, itemId := item, warehouseId := warehouse, quantity := quantity
            lockedQty := 0, version := 1 } }

def logTransaction (row : InventoryTransaction) (db : Db) : Db :=
  { db with inventoryTransactions := db.inventoryTransactions ++ [row] }

/-- A completed movement: the new quantity and its journal row. -/
def post (cmd : LedgerCommand) (invId txId : ID) (before after : ℤ) (db : Db) : Db :=
  (db.upsertInventory invId cmd.itemId cmd.warehouseId after).logTransaction
    (cmd.row txId before after)

/-- `w` is `v` after the movement `cmd`, whatever identifiers its two rows got. -/
def Posts (cmd : LedgerCommand) (before after : ℤ) (v w : Db) : Prop :=
  ∃ invId txId, w = v.post cmd invId txId before after

end Db

namespace InventoryLedger

/-- `SELECT quantity … FOR UPDATE`, 0 when there is no row (and then nothing to lock). -/
def readQty (item warehouse : ID) : Handler ℤ := do
  let row ← Prog.selectForUpdate
    (fun db => lockIf (db.inventories.has (item, warehouse)) (.inventory item warehouse))
    fun db => db.inventories.get? (item, warehouse)
  pure ((row.map Inventory.quantity).getD 0)

def writeTransaction (cmd : LedgerCommand) (before after : ℤ) : Handler Unit := do
  let txId ← ask .newId
  Prog.insert [] (fun _ => none) (Db.logTransaction (cmd.row txId before after))

def upsertAndLog (cmd : LedgerCommand) (newQuantity before : ℤ) : Handler Unit := do
  let invId ← ask .newId
  Prog.upsert (.inventory cmd.itemId cmd.warehouseId)
    (fun db => db.inventories.has (cmd.itemId, cmd.warehouseId))
    (Db.upsertInventory invId cmd.itemId cmd.warehouseId newQuantity)
  writeTransaction cmd before newQuantity

variable (ar : Arith)

def receive (cmd : LedgerCommand) : Handler Unit := do
  let before ← readQty cmd.itemId cmd.warehouseId
  let after := ar.add before cmd.quantity
  upsertAndLog cmd after before

/-- Issue that lets the stock go below zero. -/
def forceIssue (cmd : LedgerCommand) : Handler Unit := do
  let before ← readQty cmd.itemId cmd.warehouseId
  let after := ar.sub before cmd.quantity
  upsertAndLog cmd after before

def issue (cmd : LedgerCommand) : Handler Unit := do
  let before ← readQty cmd.itemId cmd.warehouseId
  Prog.ensure (!decide (before < cmd.quantity)) (.inventory .insufficientInventory)
  let after := ar.sub before cmd.quantity
  upsertAndLog cmd after before

/-- Set the stock to a counted quantity; nothing is written when it agrees already. -/
def adjust (item warehouse : ID) (newQuantity : ℤ) (referenceType : String) (referenceId : ID) :
    Handler Unit := do
  let before ← readQty item warehouse
  let adjustment := ar.sub newQuantity before
  if adjustment = 0 then
    pure ()
  else
    upsertAndLog
      { itemId := item, warehouseId := warehouse, quantity := adjustment
        txType := .inventoryCheck, referenceType := referenceType, referenceId := referenceId
        batchNumber := none }
      newQuantity before

/-- The issue leg of a transfer. -/
def transferOutCommand (item fromWarehouse : ID) (quantity : ℤ) (referenceId : ID)
    (batchNumber : Option String) : LedgerCommand where
  itemId := item
  warehouseId := fromWarehouse
  quantity := quantity
  txType := .transferOut
  referenceType := "stock_transfer_out"
  referenceId := referenceId
  batchNumber := batchNumber

/-- The receipt leg of a transfer. -/
def transferInCommand (item toWarehouse : ID) (quantity : ℤ) (referenceId : ID)
    (batchNumber : Option String) : LedgerCommand where
  itemId := item
  warehouseId := toWarehouse
  quantity := quantity
  txType := .transferIn
  referenceType := "stock_transfer_in"
  referenceId := referenceId
  batchNumber := batchNumber

def transfer (item fromWarehouse toWarehouse : ID) (quantity : ℤ) (referenceId : ID)
    (batchNumber : Option String) : Handler Unit := do
  issue ar (transferOutCommand item fromWarehouse quantity referenceId batchNumber)
  receive ar (transferInCommand item toWarehouse quantity referenceId batchNumber)

end InventoryLedger

/-! ## What a movement changes -/

namespace Db

variable {db : Db} {cmd : LedgerCommand} {invId txId item warehouse : ID} {before after q : ℤ}

theorem quantity?_upsertInventory_self :
    (db.upsertInventory invId item warehouse q).quantity? item warehouse = some q := by
  unfold quantity? upsertInventory
  cases h : db.inventories.has (item, warehouse) with
  | true =>
    obtain ⟨r, hr⟩ := Table.has_iff.mp h
    simp only [if_true, Table.get?_modify_self, hr, Option.map_some]
    rfl
  | false =>
    have hself := Table.get?_insert_self (t := db.inventories)
      (r := ⟨invId, item, warehouse, q, 0, 1⟩) (Table.has_eq_false.mp h)
    simp only [Bool.false_eq_true, if_false]
    exact congrArg (Option.map Inventory.quantity) hself

theorem quantity?_upsertInventory_of_ne {i w : ID} (h : (i, w) ≠ (item, warehouse)) :
    (db.upsertInventory invId item warehouse q).quantity? i w = db.quantity? i w := by
  unfold quantity? upsertInventory
  split
  · simp only [Table.get?_modify_of_ne h]
  · have hins := Table.get?_insert_of_ne (t := db.inventories)
      (r := ⟨invId, item, warehouse, q, 0, 1⟩) (Ne.symm h)
    exact congrArg (Option.map Inventory.quantity) hins

theorem stock_upsertInventory_self :
    (db.upsertInventory invId item warehouse q).stock item warehouse = q := by
  rw [stock, quantity?_upsertInventory_self, Option.getD_some]

theorem stock_upsertInventory_of_ne {i w : ID} (h : (i, w) ≠ (item, warehouse)) :
    (db.upsertInventory invId item warehouse q).stock i w = db.stock i w := by
  rw [stock, quantity?_upsertInventory_of_ne h, stock]

theorem stock_of_has_eq_false (h : db.inventories.has (item, warehouse) = false) :
    db.stock item warehouse = 0 := by
  rw [stock, quantity?, Table.has_eq_false.mp h, Option.map_none, Option.getD_none]

theorem quantity?_post_self :
    (db.post cmd invId txId before after).quantity? cmd.itemId cmd.warehouseId = some after :=
  quantity?_upsertInventory_self

theorem quantity?_post_of_ne {i w : ID} (h : (i, w) ≠ (cmd.itemId, cmd.warehouseId)) :
    (db.post cmd invId txId before after).quantity? i w = db.quantity? i w :=
  quantity?_upsertInventory_of_ne h

@[simp] theorem stock_post_self :
    (db.post cmd invId txId before after).stock cmd.itemId cmd.warehouseId = after :=
  stock_upsertInventory_self

theorem stock_post_of_ne {i w : ID} (h : (i, w) ≠ (cmd.itemId, cmd.warehouseId)) :
    (db.post cmd invId txId before after).stock i w = db.stock i w :=
  stock_upsertInventory_of_ne h

@[simp] theorem inventoryTransactions_post :
    (db.post cmd invId txId before after).inventoryTransactions =
      db.inventoryTransactions ++ [cmd.row txId before after] := rfl

theorem journal_post (i w : ID) :
    (db.post cmd invId txId before after).journal i w =
      db.journal i w ++
        if (i, w) = (cmd.itemId, cmd.warehouseId) then [cmd.row txId before after] else [] := by
  unfold journal
  rw [inventoryTransactions_post, List.filter_append]
  congr 1
  by_cases h : (i, w) = (cmd.itemId, cmd.warehouseId)
  · obtain ⟨rfl, rfl⟩ := Prod.mk.inj h
    simp
  · rw [if_neg h, List.filter_eq_nil_iff]
    intro t ht
    rw [List.mem_singleton] at ht
    subst ht
    have hne : ¬ (cmd.itemId = i ∧ cmd.warehouseId = w) := by
      rintro ⟨rfl, rfl⟩; exact h rfl
    rw [Bool.and_eq_true, decide_eq_true_eq, decide_eq_true_eq]
    exact hne

/-- The total of an item over all warehouses changes by what the movement changed. -/
theorem total_post (i : ID) (h : before = db.stock cmd.itemId cmd.warehouseId) :
    (db.post cmd invId txId before after).total i =
      db.total i + if cmd.itemId = i then after - before else 0 := by
  subst h
  unfold total
  change Table.tally _ _ (db.upsertInventory invId cmd.itemId cmd.warehouseId after).inventories = _
  unfold upsertInventory stock quantity?
  cases h : db.inventories.has (cmd.itemId, cmd.warehouseId) with
  | true =>
    obtain ⟨r, hr⟩ := Table.has_iff.mp h
    have hitem : r.itemId = cmd.itemId := congrArg Prod.fst (Table.key_of_get? hr)
    have hset : (r.setQuantity after).itemId = cmd.itemId := hitem
    simp only [if_true, Table.tally_modify hr, hr, Option.map_some, Option.getD_some, hitem, hset,
      decide_eq_true_eq]
    have hq : (r.setQuantity after).quantity = after := rfl
    split <;> omega
  | false =>
    have hnone := Table.has_eq_false.mp h
    have hins := Table.tally_insert (t := db.inventories)
      (r := ⟨invId, cmd.itemId, cmd.warehouseId, after, 0, 1⟩) hnone (fun r => r.itemId = i)
      Inventory.quantity
    simp only [Bool.false_eq_true, if_false, hnone, Option.map_none, Option.getD_none, hins,
      decide_eq_true_eq]
    split <;> omega

theorem Posts.stock {v w : Db} (h : Posts cmd before after v w) (i wh : ID) :
    w.stock i wh = if (i, wh) = (cmd.itemId, cmd.warehouseId) then after else v.stock i wh := by
  obtain ⟨invId, txId, rfl⟩ := h
  split
  · next hk =>
    obtain ⟨rfl, rfl⟩ := Prod.mk.inj hk
    exact stock_post_self
  · next hk => exact stock_post_of_ne hk

theorem Posts.total {v w : Db} (h : Posts cmd before after v w)
    (hb : before = v.stock cmd.itemId cmd.warehouseId) (i : ID) :
    w.total i = v.total i + if cmd.itemId = i then after - before else 0 := by
  obtain ⟨invId, txId, rfl⟩ := h
  exact total_post i hb

end Db

/-! ## Each operation alone -/

namespace InventoryLedger

variable {ar : Arith} {cmd : LedgerCommand} {v w : Db}

theorem readQty_bind_runs {item warehouse : ID} {f : ℤ → Handler Unit}
    {r : Except AppError Unit} :
    (readQty item warehouse >>= f).Runs v w r ↔ (f (v.stock item warehouse)).Runs v w r := by
  simp [readQty, Prog.selectForUpdate, Prog.Runs, Db.stock, Db.quantity?]

theorem upsertAndLog_runs {after before : ℤ} {r : Except AppError Unit} :
    (upsertAndLog cmd after before).Runs v w r ↔ r = .ok () ∧ Db.Posts cmd before after v w := by
  unfold upsertAndLog writeTransaction Db.Posts Db.post
  simp only [ask, Prog.ask, Prog.call_bind, Prog.ret_bind, Prog.upsert, Prog.stmt_bind, Prog.Runs,
    Prog.insert, Prog.writeIf, Prog.refuse, Option.isNone_none, if_true]
  constructor
  · rintro ⟨invId, txId, rfl, rfl⟩; exact ⟨rfl, invId, txId, rfl⟩
  · rintro ⟨rfl, invId, txId, rfl⟩; exact ⟨invId, txId, rfl, rfl⟩

/-- A receipt always goes through. -/
theorem receive_runs {r : Except AppError Unit} :
    (receive ar cmd).Runs v w r ↔ r = .ok () ∧
      Db.Posts cmd (v.stock cmd.itemId cmd.warehouseId)
        (ar.add (v.stock cmd.itemId cmd.warehouseId) cmd.quantity) v w := by
  rw [receive, readQty_bind_runs, upsertAndLog_runs]

theorem forceIssue_runs {r : Except AppError Unit} :
    (forceIssue ar cmd).Runs v w r ↔ r = .ok () ∧
      Db.Posts cmd (v.stock cmd.itemId cmd.warehouseId)
        (ar.sub (v.stock cmd.itemId cmd.warehouseId) cmd.quantity) v w := by
  rw [forceIssue, readQty_bind_runs, upsertAndLog_runs]

/-- An issue goes through exactly when the stock suffices. -/
theorem issue_runs_ok :
    (issue ar cmd).Runs v w (.ok ()) ↔ cmd.quantity ≤ v.stock cmd.itemId cmd.warehouseId ∧
      Db.Posts cmd (v.stock cmd.itemId cmd.warehouseId)
        (ar.sub (v.stock cmd.itemId cmd.warehouseId) cmd.quantity) v w := by
  rw [issue, readQty_bind_runs, Prog.runs_bind_ok]
  by_cases h : v.stock cmd.itemId cmd.warehouseId < cmd.quantity
  · simp [h]
  · simp [h, not_lt.mp h, upsertAndLog_runs]

/-- An issue that fails has written nothing. -/
theorem issue_runs_error {e : AppError} :
    (issue ar cmd).Runs v w (.error e) ↔ v.stock cmd.itemId cmd.warehouseId < cmd.quantity ∧
      w = v ∧ e = .inventory .insufficientInventory := by
  rw [issue, readQty_bind_runs, Prog.runs_bind_error]
  by_cases h : v.stock cmd.itemId cmd.warehouseId < cmd.quantity
  · simp [h]
  · simp [h, upsertAndLog_runs]

/-- The command that an adjustment logs. -/
def adjustCommand (item warehouse : ID) (adjustment : ℤ) (referenceType : String)
    (referenceId : ID) : LedgerCommand where
  itemId := item
  warehouseId := warehouse
  quantity := adjustment
  txType := .inventoryCheck
  referenceType := referenceType
  referenceId := referenceId
  batchNumber := none

theorem adjust_runs {item warehouse : ID} {q : ℤ} {referenceType : String} {referenceId : ID}
    {r : Except AppError Unit} :
    (adjust ar item warehouse q referenceType referenceId).Runs v w r ↔ r = .ok () ∧
      if ar.sub q (v.stock item warehouse) = 0 then w = v
      else Db.Posts
        (adjustCommand item warehouse (ar.sub q (v.stock item warehouse)) referenceType referenceId)
        (v.stock item warehouse) q v w := by
  rw [adjust, readQty_bind_runs]
  simp only []
  split
  · rw [Prog.pure_eq, Prog.runs_ret, and_comm]
  · exact upsertAndLog_runs

/-- A transfer is its two legs, the second from where the first left the database. -/
theorem transfer_runs_ok {item fromWh toWh : ID} {q : ℤ} {referenceId : ID}
    {batch : Option String} :
    (transfer ar item fromWh toWh q referenceId batch).Runs v w (.ok ()) ↔ ∃ u,
      (issue ar (transferOutCommand item fromWh q referenceId batch)).Runs v u (.ok ()) ∧
      (receive ar (transferInCommand item toWh q referenceId batch)).Runs u w (.ok ()) := by
  rw [transfer, Prog.runs_bind_ok]
  exact ⟨fun ⟨u, _, h⟩ => ⟨u, h⟩, fun ⟨u, h⟩ => ⟨u, (), h⟩⟩

/-- A transfer fails only in its issue leg. -/
theorem transfer_runs_error {item fromWh toWh : ID} {q : ℤ} {referenceId : ID}
    {batch : Option String} {e : AppError} :
    (transfer ar item fromWh toWh q referenceId batch).Runs v w (.error e) ↔
      (issue ar (transferOutCommand item fromWh q referenceId batch)).Runs v w (.error e) := by
  rw [transfer, Prog.runs_bind_error]
  constructor
  · rintro (h | ⟨u, _, -, h⟩)
    · exact h
    · rw [receive_runs] at h
      cases h.1
  · exact .inl

/-! ## What the ledger leaves alone -/

/-- Everything but stock and journal. -/
def withoutStock (db : Db) : Db := { db with inventories := .empty, inventoryTransactions := [] }

theorem readQty_preserves {τ : Type} (f : Db → τ) (item warehouse : ID) :
    (readQty item warehouse).Preserves f :=
  (Prog.preserves_selectForUpdate _ _).bind fun _ => Prog.preserves_ret _

theorem upsertAndLog_preserves (cmd : LedgerCommand) (after before : ℤ) :
    (upsertAndLog cmd after before).Preserves withoutStock := by
  refine (Prog.preserves_ask _).bind fun invId => ?_
  refine (Prog.preserves_upsert (by intro _; rfl)).bind fun _ => ?_
  refine (Prog.preserves_ask _).bind fun txId => ?_
  exact Prog.preserves_insert (by intro _; rfl)

theorem receive_preserves (cmd : LedgerCommand) : (receive ar cmd).Preserves withoutStock :=
  (readQty_preserves _ _ _).bind fun _ => upsertAndLog_preserves _ _ _

theorem forceIssue_preserves (cmd : LedgerCommand) :
    (forceIssue ar cmd).Preserves withoutStock :=
  (readQty_preserves _ _ _).bind fun _ => upsertAndLog_preserves _ _ _

theorem adjust_preserves (item warehouse : ID) (q : ℤ) (referenceType : String)
    (referenceId : ID) :
    (adjust ar item warehouse q referenceType referenceId).Preserves withoutStock := by
  refine (readQty_preserves _ item warehouse).bind fun before => ?_
  show (if ar.sub q before = 0 then _ else _ : Handler Unit).Preserves withoutStock
  split
  · exact Prog.preserves_ret _
  · exact upsertAndLog_preserves _ _ _

theorem issue_preserves (cmd : LedgerCommand) : (issue ar cmd).Preserves withoutStock :=
  (readQty_preserves _ _ _).bind fun _ => (Prog.preserves_ensure _ _).bind fun _ =>
    upsertAndLog_preserves _ _ _

theorem transfer_preserves (item fromWarehouse toWarehouse : ID) (quantity : ℤ)
    (referenceId : ID) (batch : Option String) :
    (transfer ar item fromWarehouse toWarehouse quantity referenceId batch).Preserves
      withoutStock :=
  (issue_preserves _).bind fun _ => receive_preserves _

end InventoryLedger

end Slab
