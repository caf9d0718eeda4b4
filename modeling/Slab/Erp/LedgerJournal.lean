import Slab.Erp.Ledger
import Slab.Txn.Chain

/-!
# The journal of the ledger

Ledger operations executed one after another, and what their journal rows say about them.

## Main definitions

- `LedgerOp` — the five operations with their arguments
- `LedgerOp.moves` — the signed quantities an operation is to book
- `Db.Journalled` — each stock is where its chain of journal rows stops

## Main results

- `LedgerOp.writes` — one operation: the rows it writes, or its refusal
- `journal_of_executes` — the journal after any sequence of operations on an empty database
-/

namespace Slab

open Txn

inductive LedgerOp where
  | receive (cmd : LedgerCommand)
  | forceIssue (cmd : LedgerCommand)
  | issue (cmd : LedgerCommand)
  | adjust (item warehouse : ID) (actual : ℤ) (referenceType : String) (referenceId : ID)
  | transfer (item fromWarehouse toWarehouse : ID) (quantity : ℤ) (referenceId : ID)
      (batchNumber : Option String)

/-- A signed change of one stock. -/
structure Move where
  item : ID
  warehouse : ID
  delta : ℤ
deriving DecidableEq

/-- The change that a journal row records. -/
def InventoryTransaction.move (t : InventoryTransaction) : Move :=
  ⟨t.itemId, t.warehouseId, t.afterQuantity - t.beforeQuantity⟩

namespace LedgerOp

def run (ar : Arith) : LedgerOp → Handler Unit
  | receive cmd => InventoryLedger.receive ar cmd
  | forceIssue cmd => InventoryLedger.forceIssue ar cmd
  | issue cmd => InventoryLedger.issue ar cmd
  | adjust item warehouse actual refType refId =>
    InventoryLedger.adjust ar item warehouse actual refType refId
  | transfer item fromWh toWh q refId batch =>
    InventoryLedger.transfer ar item fromWh toWh q refId batch

/-- What the operation is to book on the database it finds. -/
def moves (db : Db) : LedgerOp → List Move
  | receive cmd => [⟨cmd.itemId, cmd.warehouseId, cmd.quantity⟩]
  | forceIssue cmd => [⟨cmd.itemId, cmd.warehouseId, -cmd.quantity⟩]
  | issue cmd => [⟨cmd.itemId, cmd.warehouseId, -cmd.quantity⟩]
  | adjust item warehouse actual _ _ =>
    if actual = db.stock item warehouse then []
    else [⟨item, warehouse, actual - db.stock item warehouse⟩]
  | transfer item fromWh toWh q _ _ => [⟨item, fromWh, -q⟩, ⟨item, toWh, q⟩]

/-- The stock that the operation has to issue is not there. -/
def Short (db : Db) : LedgerOp → Prop
  | issue cmd => db.stock cmd.itemId cmd.warehouseId < cmd.quantity
  | transfer item fromWh _ q _ _ => db.stock item fromWh < q
  | _ => False

end LedgerOp

/-! ## Sequences of movements -/

/-- `w` is `v` after the movements that the rows record, each one posted from the stock it
found. -/
inductive Db.Moved : Db → List InventoryTransaction → Db → Prop where
  | nil (v : Db) : Moved v [] v
  | cons {v w : Db} {rows : List InventoryTransaction} (cmd : LedgerCommand) (invId txId : ID)
      (after : ℤ)
      (h : Moved (v.post cmd invId txId (v.stock cmd.itemId cmd.warehouseId) after) rows w) :
      Moved v (cmd.row txId (v.stock cmd.itemId cmd.warehouseId) after :: rows) w

/-- Each stock is where its chain of journal rows stops, and has a row iff they are any. -/
def Db.Journalled (db : Db) : Prop :=
  ∀ item warehouse,
    Linked InventoryTransaction.beforeQuantity InventoryTransaction.afterQuantity 0
      (db.journal item warehouse) ∧
    db.quantity? item warehouse =
      (db.journal item warehouse).getLast?.map InventoryTransaction.afterQuantity

namespace Db

variable {v w : Db} {rows : List InventoryTransaction}

theorem Posts.moved {cmd : LedgerCommand} {after : ℤ}
    (h : Posts cmd (v.stock cmd.itemId cmd.warehouseId) after v w) :
    ∃ txId, Moved v [cmd.row txId (v.stock cmd.itemId cmd.warehouseId) after] w := by
  obtain ⟨invId, txId, rfl⟩ := h
  exact ⟨txId, .cons cmd invId txId after (.nil _)⟩

theorem Moved.append {u : Db} {rows' : List InventoryTransaction} (h : Moved v rows u)
    (h' : Moved u rows' w) : Moved v (rows ++ rows') w := by
  induction h with
  | nil => exact h'
  | cons cmd invId txId after _ ih => exact .cons cmd invId txId after (ih h')

theorem Moved.inventoryTransactions (h : Moved v rows w) :
    w.inventoryTransactions = v.inventoryTransactions ++ rows := by
  induction h with
  | nil => rw [List.append_nil]
  | cons cmd invId txId after _ ih => 
    rw [ih, inventoryTransactions_post, List.append_assoc, List.singleton_append]

theorem Journalled.stock (h : v.Journalled) (item warehouse : ID) :
    v.stock item warehouse =
      stopOf InventoryTransaction.afterQuantity 0 (v.journal item warehouse) := by
  rw [Db.stock, (h item warehouse).2, stopOf]

/-- A movement posted from the stock it found extends the chain of its key. -/
theorem Journalled.post (h : v.Journalled) (cmd : LedgerCommand) (invId txId : ID) (after : ℤ) :
    (v.post cmd invId txId (v.stock cmd.itemId cmd.warehouseId) after).Journalled := by
  intro item warehouse
  rw [journal_post]
  by_cases hk : (item, warehouse) = (cmd.itemId, cmd.warehouseId)
  · obtain ⟨rfl, rfl⟩ := Prod.mk.inj hk
    rw [if_pos rfl, linked_append_singleton, quantity?_post_self]
    refine ⟨⟨(h _ _).1, ?_⟩, ?_⟩
    · exact h.stock _ _
    · simp [LedgerCommand.row]
  · rw [if_neg hk, List.append_nil, quantity?_post_of_ne hk]
    exact h item warehouse

theorem Moved.journalled (h : Moved v rows w) (hv : v.Journalled) : w.Journalled := by
  induction h with
  | nil => exact hv
  | cons cmd invId txId after _ ih => exact ih (hv.post cmd invId txId after)

theorem journalled_empty : Db.empty.Journalled := fun _ _ => ⟨trivial, rfl⟩

end Db

/-- The row of a movement records the difference it made. -/
theorem LedgerCommand.move_row (cmd : LedgerCommand) (id : ID) (before after : ℤ) :
    (cmd.row id before after).move = ⟨cmd.itemId, cmd.warehouseId, after - before⟩ := rfl

/-! ## One operation -/

namespace LedgerOp

open InventoryLedger

variable {v w : Db} {r : Except AppError Unit}

/-- What an operation does: it books its moves, or finds the stock short and does nothing. -/
theorem writes {op : LedgerOp} (h : (op.run .exact).Runs v w r) :
    (r = .ok () ∧ ¬ op.Short v ∧
      ∃ rows, Db.Moved v rows w ∧ rows.map InventoryTransaction.move = op.moves v) ∨
    (r = .error (.inventory .insufficientInventory) ∧ op.Short v ∧ w = v) := by
  cases op with
  | receive cmd =>
    obtain ⟨rfl, hp⟩ := receive_runs.mp h
    obtain ⟨txId, hm⟩ := hp.moved
    refine .inl ⟨rfl, not_false, _, hm, ?_⟩
    simp [moves, LedgerCommand.move_row]
  | forceIssue cmd =>
    obtain ⟨rfl, hp⟩ := forceIssue_runs.mp h
    obtain ⟨txId, hm⟩ := hp.moved
    refine .inl ⟨rfl, not_false, _, hm, ?_⟩
    simp [moves, LedgerCommand.move_row]
  | issue cmd =>
    cases r with
    | ok x =>
      obtain ⟨hle, hp⟩ := issue_runs_ok.mp h
      obtain ⟨txId, hm⟩ := hp.moved
      refine .inl ⟨rfl, not_lt.mpr hle, _, hm, ?_⟩
      simp [moves, LedgerCommand.move_row]
    | error e =>
      obtain ⟨hlt, rfl, rfl⟩ := issue_runs_error.mp h
      exact .inr ⟨rfl, hlt, rfl⟩
  | adjust item warehouse actual refType refId =>
    obtain ⟨rfl, hp⟩ := adjust_runs.mp h
    simp only [Arith.exact_sub, sub_eq_zero] at hp
    by_cases heq : actual = v.stock item warehouse
    · rw [if_pos heq] at hp
      subst hp
      exact .inl ⟨rfl, not_false, [], .nil _, by simp [moves, heq]⟩
    · rw [if_neg heq] at hp
      obtain ⟨txId, hm⟩ := Db.Posts.moved hp
      refine .inl ⟨rfl, not_false, _, hm, ?_⟩
      simp [moves, heq, LedgerCommand.move_row, adjustCommand]
  | transfer item fromWh toWh q refId batch =>
    cases r with
    | ok x =>
      obtain ⟨u, hissue, hreceive⟩ := transfer_runs_ok.mp h
      obtain ⟨hle, hp⟩ := issue_runs_ok.mp hissue
      obtain ⟨-, hp'⟩ := receive_runs.mp hreceive
      obtain ⟨txId, hm⟩ := hp.moved
      obtain ⟨txId', hm'⟩ := hp'.moved
      refine .inl ⟨rfl, not_lt.mpr hle, _, hm.append hm', ?_⟩
      simp [moves, LedgerCommand.move_row, transferOutCommand, transferInCommand]
    | error e =>
      obtain ⟨hlt, rfl, rfl⟩ := issue_runs_error.mp (transfer_runs_error.mp h)
      exact .inr ⟨rfl, hlt, rfl⟩

end LedgerOp

/-! ## Sequences of operations -/

/-- One executed operation: the database it found and left, its result, and its rows. -/
structure Execution where
  op : LedgerOp
  found : Db
  left : Db
  result : Except AppError Unit
  rows : List InventoryTransaction

/-- The operation did take one database to the other, and wrote the rows. -/
structure Execution.Valid (ar : Arith) (x : Execution) : Prop where
  runs : (x.op.run ar).Runs x.found x.left x.result
  rows_eq : x.left.inventoryTransactions = x.found.inventoryTransactions ++ x.rows

/-- Operations executed one after another, each on what the one before it left; a failed one
does not stop the sequence. -/
def Executes (ar : Arith) (v : Db) : List Execution → Db → Prop
  | [], w => w = v
  | x :: xs, w => x.found = v ∧ x.Valid ar ∧ Executes ar x.left xs w

/-- The executions of a list of operations, with the answers of `world` to each. -/
def executions (ar : Arith) (world : ℕ → (q : Ask) → Answer q) :
    Db → List LedgerOp → List Execution × Db
  | v, [] => ([], v)
  | v, op :: ops =>
    let (w, r) := (op.run ar).exec world 0 v
    let x : Execution :=
      { op := op, found := v, left := w, result := r
        rows := w.inventoryTransactions.drop v.inventoryTransactions.length }
    let (xs, u) := executions ar world w ops
    (x :: xs, u)

/-- What one execution satisfies: it booked its moves, or it was refused and did nothing. -/
def Execution.Booked (x : Execution) : Prop :=
  (x.result = .ok () ∧ ¬ x.op.Short x.found ∧
    x.rows.map InventoryTransaction.move = x.op.moves x.found) ∨
  (x.result = .error (.inventory .insufficientInventory) ∧ x.op.Short x.found ∧ x.rows = [] ∧
    x.left = x.found)

theorem Execution.Valid.booked {x : Execution} (h : x.Valid .exact) :
    Db.Moved x.found x.rows x.left ∧ x.Booked := by
  rcases LedgerOp.writes h.runs with ⟨hok, hshort, rows, hm, hmoves⟩ | ⟨herr, hshort, hleft⟩
  · have hrows : rows = x.rows :=
      List.append_cancel_left (hm.inventoryTransactions.symm.trans h.rows_eq)
    subst hrows
    exact ⟨hm, .inl ⟨hok, hshort, hmoves⟩⟩
  · have hrows : x.rows = [] := by
      have := h.rows_eq
      rw [hleft] at this
      exact List.self_eq_append_right.mp this
    rw [hrows, hleft]
    exact ⟨.nil _, .inr ⟨herr, hshort, hrows, hleft⟩⟩

theorem Executes.moved {xs : List Execution} {v w : Db} (h : Executes .exact v xs w) :
    Db.Moved v (xs.flatMap Execution.rows) w ∧ ∀ x ∈ xs, x.Booked := by
  induction xs generalizing v with
  | nil =>
    obtain rfl : w = v := h
    exact ⟨.nil _, by simp⟩
  | cons x xs ih =>
    obtain ⟨rfl, hx, hxs⟩ := h
    obtain ⟨hm, hb⟩ := hx.booked
    obtain ⟨hm', hb'⟩ := ih hxs
    refine ⟨hm.append hm', ?_⟩
    rintro y (_ | ⟨_, hy⟩)
    · exact hb
    · exact hb' y hy

/-- The journal after any sequence of operations on an empty database: its rows are those of
the operations in order; per item and warehouse they form a chain from 0 that stops at the
stock; each operation booked exactly its signed quantities or was refused for want of stock
and did nothing. -/
theorem journal_of_executes {xs : List Execution} {w : Db} (h : Executes .exact .empty xs w) :
    w.inventoryTransactions = xs.flatMap Execution.rows ∧
    (∀ item warehouse,
      Linked InventoryTransaction.beforeQuantity InventoryTransaction.afterQuantity 0
        (w.journal item warehouse) ∧
      w.quantity? item warehouse =
        (w.journal item warehouse).getLast?.map InventoryTransaction.afterQuantity) ∧
    ∀ x ∈ xs, x.Booked := by
  obtain ⟨hm, hb⟩ := h.moved
  exact ⟨hm.inventoryTransactions, hm.journalled Db.journalled_empty, hb⟩

/-- The executions that the function computes are valid. -/
theorem executions_executes (world : ℕ → (q : Ask) → Answer q) (v : Db) (ops : List LedgerOp) :
    Executes .exact v (executions .exact world v ops).1 (executions .exact world v ops).2 := by
  induction ops generalizing v with
  | nil => rfl
  | cons op ops ih =>
    have hruns := Prog.exec_runs world (op.run .exact) 0 v
    refine ⟨rfl, ⟨hruns, ?_⟩, ih _⟩
    -- an operation only appends to the journal
    have happ : ∃ rows, ((op.run .exact).exec world 0 v).1.inventoryTransactions =
        v.inventoryTransactions ++ rows := by
      rcases LedgerOp.writes hruns with ⟨-, -, rows, hm, -⟩ | ⟨-, -, hleft⟩
      · exact ⟨rows, hm.inventoryTransactions⟩
      · exact ⟨[], by rw [hleft, List.append_nil]⟩
    obtain ⟨rows, hrows⟩ := happ
    change _ = _ ++ List.drop _ _
    rw [hrows, List.drop_left]

/-- A receipt, a transfer that fails, a transfer within one warehouse and an adjustment. -/
def sampleOps : List LedgerOp :=
  [.receive ⟨1, 1, 5, .inbound, "purchase_receipt", 7, none⟩, .transfer 1 1 2 6 8 none,
    .transfer 1 1 1 2 9 none, .adjust 1 1 4 "inventory_check" 10]

theorem journal_of_executes_sampleOps :
    (executions .exact (numbered 100) .empty sampleOps).2.stock 1 1 = 4 ∧
    (∀ x ∈ (executions .exact (numbered 100) .empty sampleOps).1, x.Booked) := by
  refine ⟨by decide, ?_⟩
  exact (journal_of_executes (executions_executes (numbered 100) .empty sampleOps)).2.2

end Slab
