import Slab.Erp.Services
import Slab.Erp.Ledger

/-!
# Inventory checks

The handlers that create, submit and approve inventory checks. A check keeps the quantity on the
books when it is created, the quantity counted, and their difference; an approval adjusts the stock
to the quantity counted, whatever has moved in between.

## Main definitions

- `InventoryCheckCreate.execute`, `InventoryCheckSubmit.execute`, `InventoryCheckApprove.execute`
- `counts` — the quantities counted for an item, line by line
- `journalled` — what the adjustments to these quantities journal

## Main results

- `create_lines` — the lines of a new check
- `approve_stock`, `approve_journal` — what an approval makes of the stock and of the journal
- `approve_by_counts` — when it changes the stock by the recorded difference
-/

namespace Slab

open Txn

/-- `SET status = $1`. -/
def InventoryCheck.setStatus (status : ℤ) (r : InventoryCheck) : InventoryCheck :=
  { r with status := status }

theorem InventoryCheck.setStatus_id (status : ℤ) (r : InventoryCheck) :
    (r.setStatus status).id = r.id := rfl

/-- `SET status = $1, approved_at = NOW()`. -/
def InventoryCheck.approve (status : ℤ) (now : Timestamp) (r : InventoryCheck) : InventoryCheck :=
  { r with status := status, approvedAt := some now }

theorem InventoryCheck.approve_id (status : ℤ) (now : Timestamp) (r : InventoryCheck) :
    (r.approve status now).id = r.id := rfl

/-- The lines of a check. -/
def Db.checkLines (db : Db) (checkId : ID) : List InventoryCheckItem :=
  db.inventoryCheckItems.rows.filter fun l => l.checkId = checkId

/-! ## The repository -/

namespace InventoryCheckRepository

/-- The row, locked. -/
def lockCheck (id : ID) : Handler InventoryCheck := do
  let found ← Prog.selectForUpdate
    (fun db => lockRow .inventoryChecks id (db.inventoryChecks.has id))
    fun db => db.inventoryChecks.get? id
  Prog.orFail found (.warehouse .notFound)

def lockStatus (id : ID) : Handler ℤ := do
  let row ← lockCheck id
  pure row.status

def submit (id : ID) : Handler Unit := do
  let status ← lockStatus id
  let newStatus ← Prog.ofExcept (chFlow.submitStatus status)
  Prog.update (fun db => lockRow .inventoryChecks id (db.inventoryChecks.has id)) fun db =>
    { db with
      inventoryChecks := db.inventoryChecks.modify id (InventoryCheck.setStatus newStatus)
        (InventoryCheck.setStatus_id newStatus) }

/-- The new status is written; the warehouse of the locked row is returned. -/
def approve (id : ID) : Handler ID := do
  let row ← lockCheck id
  let newStatus ← Prog.ofExcept (chFlow.approveStatus row.status)
  let now ← ask .now
  Prog.update (fun db => lockRow .inventoryChecks id (db.inventoryChecks.has id)) fun db =>
    { db with
      inventoryChecks := db.inventoryChecks.modify id (InventoryCheck.approve newStatus now)
        (InventoryCheck.approve_id newStatus now) }
  pure row.warehouseId

end InventoryCheckRepository

/-! ## Creation -/

namespace InventoryCheckCreate

structure CheckItemInput where
  itemId : ID
  actualQty : ℤ
  remark : Option String
deriving DecidableEq

structure CreateCheckRequest where
  warehouseId : ID
  planDate : Date
  remark : Option String
  items : List CheckItemInput
deriving DecidableEq

structure CreateCheckResponse where
  id : ID
  code : String
deriving DecidableEq

/-- The stored line. -/
def checkItem (ar : Arith) (lineId checkId : ID) (book : ℤ) (item : CheckItemInput) :
    InventoryCheckItem where
  id := lineId
  checkId := checkId
  itemId := item.itemId
  bookQty := book
  actualQty := item.actualQty
  diffQty := ar.sub item.actualQty book
  remark := item.remark

variable (ar : Arith)

/-- One round of `for item in &request.items`; the stock is read without a lock. -/
def insertItem (checkId warehouseId : ID) (item : CheckItemInput) : Handler Unit := do
  let found ← Prog.select fun db => db.quantity? item.itemId warehouseId
  let book := found.getD 0
  let lineId ← ask .newId
  insertRow .inventoryCheckItems lineId (fun db => db.inventoryCheckItems.has lineId) fun db =>
    { db with
      inventoryCheckItems :=
        db.inventoryCheckItems.insert (checkItem ar lineId checkId book item) }

/-- The document, a draft. -/
def createHeader (request : CreateCheckRequest) : Handler CreateCheckResponse := do
  let code ← DocNumberer.nextNumber "seq_inventory_check" "CHK"
  let id ← ask .newId
  insertRow .inventoryChecks id (fun db => db.inventoryChecks.has id) fun db =>
    { db with
      inventoryChecks := db.inventoryChecks.insert {
        id := id, code := code, warehouseId := request.warehouseId
        status := InventoryCheckStatus.draft.toI16, planDate := request.planDate
        remark := request.remark, approvedAt := none } }
  pure { id := id, code := code }

/-- The audit row, from the document read back. -/
def recordHeader (ctx : Operator) (id : ID) : Handler Unit := do
  let row ← Prog.select fun db => db.inventoryChecks.get? id
  let after ← Prog.orFail row (.warehouse .notFound)
  AuditService.recordCreate "inventory_check" id ctx (.inventoryCheck after)

def execute (ctx : Operator) (request : CreateCheckRequest) : Handler CreateCheckResponse := do
  let response ← createHeader request
  Prog.forEach request.items (insertItem ar response.id request.warehouseId)
  recordHeader ctx response.id
  pure response

end InventoryCheckCreate

/-! ## Submission and approval -/

structure CheckActionResponse where
  success : Bool
deriving DecidableEq

/-- The audit row of a change, with the check read back. -/
def recordCheck (ctx : Operator) (id : ID) (before : InventoryCheck) : Handler Unit := do
  let row ← Prog.select fun db => db.inventoryChecks.get? id
  let after ← Prog.orFail row (.warehouse .notFound)
  AuditService.recordUpdated "inventory_check" id ctx (.inventoryCheck before)
    (.inventoryCheck after)

namespace InventoryCheckSubmit

def execute (ctx : Operator) (id : ID) : Handler CheckActionResponse := do
  let before ← InventoryCheckRepository.lockCheck id
  InventoryCheckRepository.submit id
  recordCheck ctx id before
  pure { success := true }

end InventoryCheckSubmit

namespace InventoryCheckApprove

/-- `SELECT item_id, actual_qty … WHERE check_id = $1`, in the order of insertion. -/
def items (checkId : ID) (db : Db) : List (ID × ℤ) :=
  (db.checkLines checkId).map fun l => (l.itemId, l.actualQty)

variable (ar : Arith)

/-- One round of `for item in &items`. -/
def adjustItem (checkId warehouseId : ID) (item : ID × ℤ) : Handler Unit :=
  InventoryLedger.adjust ar item.1 warehouseId item.2 "inventory_check" checkId

def execute (ctx : Operator) (id : ID) : Handler CheckActionResponse := do
  let before ← InventoryCheckRepository.lockCheck id
  let warehouseId ← InventoryCheckRepository.approve id
  let lines ← Prog.select (items id)
  Prog.forEach lines (adjustItem ar id warehouseId)
  recordCheck ctx id before
  pure { success := true }

end InventoryCheckApprove

theorem chFlow_submitStatus {current new : ℤ} :
    chFlow.submitStatus current = .ok new ↔ current = 0 ∧ new = 1 := by
  unfold StateTransitions.submitStatus
  split <;> simp_all [chFlow, InventoryCheckStatus.toI16, eq_comm]

theorem chFlow_approveStatus {current new : ℤ} :
    chFlow.approveStatus current = .ok new ↔ current = 1 ∧ new = 3 := by
  unfold StateTransitions.approveStatus
  by_cases h : current = 1
  · simp [chFlow, InventoryCheckStatus.toI16, h, eq_comm]
  · simp [chFlow, InventoryCheckStatus.toI16, h, Ne.symm h]

/-! ## What goes through -/

section Locking

variable {v w : Db}

theorem lockCheck_runs {id : ID} {r : InventoryCheck} :
    (InventoryCheckRepository.lockCheck id).Runs v w (.ok r) ↔
      w = v ∧ v.inventoryChecks.get? id = some r := by
  simp only [InventoryCheckRepository.lockCheck, Prog.runs_bind_ok, Prog.runs_selectForUpdate,
    Prog.runs_orFail_ok]
  constructor
  · rintro ⟨u, a, ⟨rfl, ha⟩, rfl, rfl⟩
    exact ⟨rfl, (Except.ok.inj ha).symm⟩
  · rintro ⟨rfl, hr⟩
    exact ⟨_, _, ⟨rfl, rfl⟩, rfl, hr⟩

theorem recordCheck_runs {ctx : Operator} {id : ID} {before : InventoryCheck}
    (h : (recordCheck ctx id before).Runs v w (.ok ())) :
    ∃ logs, w = { v with auditLogs := logs } := by
  simp only [recordCheck, Prog.runs_bind_ok, Prog.runs_select, Prog.runs_orFail_ok] at h
  obtain ⟨_, row, ⟨rfl, -⟩, _, after, ⟨rfl, -⟩, hrecord⟩ := h
  obtain ⟨-, audit, rfl⟩ := AuditService.record_runs hrecord
  exact ⟨_, rfl⟩

/-- What a submission that goes through does. -/
theorem InventoryCheckSubmit.execute_runs_ok {ctx : Operator} {id : ID}
    {response : CheckActionResponse} (h : (execute ctx id).Runs v w (.ok response)) :
    ∃ r logs, v.inventoryChecks.get? id = some r ∧ r.status = 0 ∧
      w = { v with
        inventoryChecks := v.inventoryChecks.modify id (InventoryCheck.setStatus 1)
          (InventoryCheck.setStatus_id 1)
        auditLogs := logs } := by
  simp only [execute, InventoryCheckRepository.submit, InventoryCheckRepository.lockStatus,
    Prog.runs_bind_ok, lockCheck_runs, Prog.runs_ofExcept, Prog.runs_update, Prog.pure_eq,
    Prog.runs_ret] at h
  obtain ⟨_, before, ⟨rfl, -⟩, _, _, ⟨_, status, ⟨_, row, ⟨rfl, hrow⟩, rfl, hstatus⟩, _, new,
    ⟨rfl, hnew⟩, rfl, -⟩, _, _, hrecord, rfl, -⟩ := h
  obtain rfl := Except.ok.inj hstatus
  obtain ⟨hdraft, rfl⟩ := chFlow_submitStatus.mp hnew.symm
  obtain ⟨logs, rfl⟩ := recordCheck_runs hrecord
  exact ⟨row, logs, hrow, hdraft, rfl⟩

/-- What an approval that goes through does: the new status, then the lines, then the audit
row. -/
theorem InventoryCheckApprove.execute_runs_ok {ar : Arith} {ctx : Operator} {id : ID}
    {response : CheckActionResponse} (h : (execute ar ctx id).Runs v w (.ok response)) :
    ∃ r now u logs, v.inventoryChecks.get? id = some r ∧ r.status = 1 ∧
      (Prog.forEach (items id v) (adjustItem ar id r.warehouseId)).Runs
        { v with
          inventoryChecks := v.inventoryChecks.modify id (InventoryCheck.approve 3 now)
            (InventoryCheck.approve_id 3 now) } u (.ok ()) ∧
      w = { u with auditLogs := logs } := by
  simp only [execute, InventoryCheckRepository.approve, Prog.runs_bind_ok, lockCheck_runs,
    Prog.runs_ofExcept, ask, Prog.runs_ask, Prog.runs_update, Prog.runs_select, Prog.pure_eq,
    Prog.runs_ret] at h
  obtain ⟨_, before, ⟨rfl, hbefore⟩, _, warehouse, ⟨_, row, ⟨rfl, hrow⟩, _, new, ⟨rfl, hnew⟩, _,
    now, ⟨rfl, -⟩, _, _, ⟨rfl, -⟩, rfl, hwarehouse⟩, _, lines, ⟨rfl, hitems⟩, u, _, hloop, _, _,
    hrecord, rfl, -⟩ := h
  obtain ⟨hstatus, rfl⟩ := chFlow_approveStatus.mp hnew.symm
  obtain rfl := Except.ok.inj hwarehouse
  obtain rfl := Except.ok.inj hitems
  obtain ⟨logs, rfl⟩ := recordCheck_runs hrecord
  exact ⟨row, now, u, logs, hrow, hstatus, hloop, rfl⟩

end Locking

/-! ## The lines of a new check -/

section Creation

open InventoryCheckCreate

variable {ar : Arith} {v w : Db}

/-- A line has the stock of its item on the books. -/
theorem insertItem_runs_ok {checkId warehouseId : ID} {item : CheckItemInput}
    (h : (insertItem ar checkId warehouseId item).Runs v w (.ok ())) :
    ∃ lineId, w.inventoryCheckItems.rows = v.inventoryCheckItems.rows ++
        [checkItem ar lineId checkId (v.stock item.itemId warehouseId) item] ∧
      w.inventories = v.inventories ∧ w.inventoryChecks = v.inventoryChecks := by
  simp only [insertItem, Prog.runs_bind_ok, Prog.runs_select, ask, Prog.runs_ask, insertRow,
    Prog.runs_insert_ok] at h
  obtain ⟨_, found, ⟨rfl, hfound⟩, _, lineId, ⟨rfl, -⟩, hfresh, rfl⟩ := h
  obtain rfl := Except.ok.inj hfound
  have hnone := Table.has_eq_false.mp (unique_eq_none.mp hfresh)
  exact ⟨lineId, Table.rows_insert hnone, rfl, rfl⟩

/-- The lines of a check are the items of its request, in their order. -/
theorem insertItems_runs_ok {checkId warehouseId : ID} {items : List CheckItemInput}
    (h : (Prog.forEach items (insertItem ar checkId warehouseId)).Runs v w (.ok ())) :
    ∃ lines, w.inventoryCheckItems.rows = v.inventoryCheckItems.rows ++ lines ∧
      List.Forall₂ (fun item line => ∃ lineId, line =
        checkItem ar lineId checkId (v.stock item.itemId warehouseId) item) items lines ∧
      (∀ l ∈ lines, l.checkId = checkId) ∧ w.inventoryChecks = v.inventoryChecks := by
  induction items generalizing v with
  | nil =>
    simp only [Prog.forEach, Prog.runs_ret] at h
    exact ⟨[], by rw [h.1, List.append_nil], .nil, fun l hl => absurd hl List.not_mem_nil,
      by rw [h.1]⟩
  | cons item items ih =>
    obtain ⟨u, hitem, hitems⟩ := Prog.runs_forEach_cons_ok.mp h
    obtain ⟨lineId, hrows, hinv, hchecks⟩ := insertItem_runs_ok hitem
    obtain ⟨lines, hrows', hlines, hids, hchecks'⟩ := ih hitems
    refine ⟨_ :: lines, ?_, .cons ⟨lineId, rfl⟩ ?_, List.forall_mem_cons.mpr ⟨rfl, hids⟩,
      hchecks'.trans hchecks⟩
    · rw [hrows', hrows, List.append_assoc]
      rfl
    · have hstock : ∀ i, u.stock i warehouseId = v.stock i warehouseId := by
        intro i
        rw [Db.stock, Db.quantity?, hinv, Db.stock, Db.quantity?]
      simpa only [hstock] using hlines

/-- A creation adds the document and its lines, which keep, for each item of the request, the stock
at the creation, the quantity counted and the difference. -/
theorem create_runs_ok {ctx : Operator} {request : CreateCheckRequest}
    {response : CreateCheckResponse}
    (h : (InventoryCheckCreate.execute ar ctx request).Runs v w (.ok response)) :
    ∃ r lines, r.id = response.id ∧ r.warehouseId = request.warehouseId ∧
      v.inventoryChecks.get? r.id = none ∧ w.inventoryChecks = v.inventoryChecks.insert r ∧
      w.inventoryCheckItems.rows = v.inventoryCheckItems.rows ++ lines ∧
      List.Forall₂ (fun item line => ∃ lineId, line =
        checkItem ar lineId response.id (v.stock item.itemId request.warehouseId) item)
        request.items lines ∧
      ∀ l ∈ lines, l.checkId = response.id := by
  simp only [InventoryCheckCreate.execute, createHeader, recordHeader, Prog.runs_bind_ok, ask,
    Prog.runs_ask, insertRow, Prog.runs_insert_ok, Prog.runs_select, Prog.runs_orFail_ok,
    Prog.pure_eq, Prog.runs_ret] at h
  obtain ⟨_, _, ⟨v₀, code, hcode, _, id, ⟨rfl, -⟩, _, _, ⟨hfresh, rfl⟩, rfl, hid⟩, u, _, hitems, _,
    _, ⟨_, row, ⟨rfl, -⟩, _, after, ⟨rfl, -⟩, hrecord⟩, rfl, hresponse⟩ := h
  obtain rfl := Except.ok.inj hid
  obtain rfl := Except.ok.inj hresponse
  have hsame := (DocNumberer.nextNumber_preserves (fun db : Db => db) _ _).runs hcode
  subst hsame
  obtain ⟨-, audit, rfl⟩ := AuditService.record_runs hrecord
  obtain ⟨lines, hrows, hlines, hids, hchecks⟩ := insertItems_runs_ok hitems
  exact ⟨_, lines, rfl, rfl, Table.has_eq_false.mp (unique_eq_none.mp hfresh), hchecks, hrows,
    hlines, hids⟩

/-- No line refers to a check that is not there. -/
theorem checkLines_eq_nil {id : ID}
    (hrefs : ∀ l ∈ v.inventoryCheckItems.rows, v.inventoryChecks.has l.checkId = true)
    (h : v.inventoryChecks.get? id = none) : v.checkLines id = [] := by
  refine List.filter_eq_nil_iff.mpr fun l hl hcheck => ?_
  have hl' := hrefs l hl
  rw [of_decide_eq_true hcheck, Table.has_eq_false.mpr h] at hl'
  cases hl'

/-- The lines of a new check are those of its request. -/
theorem create_lines {ctx : Operator} {request : CreateCheckRequest}
    {response : CreateCheckResponse}
    (h : (InventoryCheckCreate.execute ar ctx request).Runs v w (.ok response))
    (hrefs : ∀ l ∈ v.inventoryCheckItems.rows, v.inventoryChecks.has l.checkId = true) :
    (∃ r, w.inventoryChecks.get? response.id = some r ∧ r.warehouseId = request.warehouseId) ∧
    List.Forall₂ (fun item line => ∃ lineId, line =
      checkItem ar lineId response.id (v.stock item.itemId request.warehouseId) item)
      request.items (w.checkLines response.id) := by
  obtain ⟨r, lines, hid, hwarehouse, hfresh, hchecks, hrows, hlines, hids⟩ := create_runs_ok h
  rw [← hid] at hlines hids ⊢
  refine ⟨⟨r, ?_, hwarehouse⟩, ?_⟩
  · rw [hchecks, Table.get?_insert_self hfresh]
  · have hnew : lines.filter (fun l => l.checkId = r.id) = lines :=
      List.filter_eq_self.mpr fun l hl => decide_eq_true (hids l hl)
    have hold : v.inventoryCheckItems.rows.filter (fun l => l.checkId = r.id) = [] :=
      checkLines_eq_nil hrefs hfresh
    rw [Db.checkLines, hrows, List.filter_append, hnew, hold]
    exact hlines

end Creation

/-! ## What an approval does -/

/-- What adjustments to the quantities of a list, one after another, journal together. -/
def journalled (ar : Arith) : ℤ → List ℤ → ℤ
  | _, [] => 0
  | q, a :: as => ar.sub a q + journalled ar a as

theorem getLastD_append (q : ℤ) (as bs : List ℤ) :
    (as ++ bs).getLastD q = bs.getLastD (as.getLastD q) := by
  induction as generalizing q with
  | nil => rfl
  | cons a as ih => rw [List.cons_append, List.getLastD_cons, ih, List.getLastD_cons]

theorem journalled_append (ar : Arith) (q : ℤ) (as bs : List ℤ) :
    journalled ar q (as ++ bs) = journalled ar q as + journalled ar (as.getLastD q) bs := by
  induction as generalizing q with
  | nil => simp [journalled]
  | cons a as ih =>
    rw [List.cons_append, journalled, journalled, ih, List.getLastD_cons]
    omega

/-- The quantities counted for an item, line by line. -/
def counts (item : ID) (items : List (ID × ℤ)) : List ℤ :=
  (items.filter fun x => x.1 = item).map Prod.snd

theorem counts_cons (item : ID) (x : ID × ℤ) (items : List (ID × ℤ)) :
    counts item (x :: items) = (if x.1 = item then [x.2] else []) ++ counts item items := by
  unfold counts
  rw [List.filter_cons]
  by_cases h : x.1 = item
  · simp [h]
  · simp [h]

/-- Words of equal value are equal. -/
theorem eq_of_sub_eq_zero {a b : ℤ} (ha : Arith.i64.Fits a) (hb : Arith.i64.Fits b)
    (h : Arith.i64.sub a b = 0) : a = b := by
  rw [Arith.fits_i64_iff] at ha hb
  have hdvd : ((2 ^ 64 : ℕ) : ℤ) ∣ a - b := Int.dvd_of_bmod_eq_zero h
  omega

namespace InventoryCheckApprove

/-- From `v` to `w` the stock of the item went through the quantities `as`, and the journal shows
it. -/
structure Adjusted (checkId warehouse item : ID) (as : List ℤ) (v w : Db) : Prop where
  stock : w.stock item warehouse = as.getLastD (v.stock item warehouse)
  journal : ∃ rows, w.journal item warehouse = v.journal item warehouse ++ rows ∧
    (∀ r ∈ rows, r.referenceType = "inventory_check" ∧ r.referenceId = checkId) ∧
    (rows.map InventoryTransaction.quantity).sum =
      journalled .i64 (v.stock item warehouse) as

variable {checkId warehouse item : ID} {as bs : List ℤ} {u v w : Db}

theorem Adjusted.of_eq (hs : w.inventories = v.inventories)
    (hj : w.inventoryTransactions = v.inventoryTransactions) :
    Adjusted checkId warehouse item [] v w := by
  refine ⟨?_, [], ?_, fun r hr => absurd hr List.not_mem_nil, rfl⟩
  · rw [Db.stock, Db.quantity?, hs]
    rfl
  · rw [Db.journal, hj, List.append_nil, Db.journal]

theorem Adjusted.trans (h : Adjusted checkId warehouse item as v u)
    (h' : Adjusted checkId warehouse item bs u w) :
    Adjusted checkId warehouse item (as ++ bs) v w := by
  obtain ⟨rows, hrows, href, hsum⟩ := h.journal
  obtain ⟨rows', hrows', href', hsum'⟩ := h'.journal
  refine ⟨?_, rows ++ rows', ?_, fun r hr => ?_, ?_⟩
  · rw [h'.stock, h.stock, getLastD_append]
  · rw [hrows', hrows, List.append_assoc]
  · exact (List.mem_append.mp hr).elim (href r) (href' r)
  · rw [List.map_append, List.sum_append, hsum, hsum', h.stock, journalled_append]

/-- A line adjusts the stock of its item, and of no other. -/
theorem adjustItem_adjusted {x : ID × ℤ}
    (h : (adjustItem .i64 checkId warehouse x).Runs v w (.ok ()))
    (hx : Arith.i64.Fits x.2) (hv : Arith.i64.Fits (v.stock item warehouse)) :
    Adjusted checkId warehouse item (if x.1 = item then [x.2] else []) v w := by
  obtain ⟨-, h⟩ := InventoryLedger.adjust_runs.mp h
  by_cases hi : x.1 = item
  · rw [if_pos hi]
    subst hi
    split at h
    · next hzero =>
      -- nothing is written, as the stock is right already
      subst h
      have heq := eq_of_sub_eq_zero hx hv hzero
      refine ⟨heq.symm, [], (List.append_nil _).symm, fun r hr => absurd hr List.not_mem_nil, ?_⟩
      rw [journalled, hzero, journalled]
      rfl
    · obtain ⟨invId, txId, rfl⟩ := h
      refine ⟨Db.stock_post_self, [(InventoryLedger.adjustCommand x.1 warehouse
        (Arith.i64.sub x.2 (v.stock x.1 warehouse)) "inventory_check" checkId).row txId
          (v.stock x.1 warehouse) x.2], (Db.journal_post x.1 warehouse).trans ?_, ?_, ?_⟩
      · exact congrArg _ (if_pos rfl)
      · intro r hr
        rw [List.mem_singleton.mp hr]
        exact ⟨rfl, rfl⟩
      · simp [journalled, LedgerCommand.row, InventoryLedger.adjustCommand]
  · rw [if_neg hi]
    split at h
    · subst h
      exact .of_eq rfl rfl
    · obtain ⟨invId, txId, rfl⟩ := h
      have hne : (item, warehouse) ≠ (x.1, warehouse) := fun he => hi (Prod.mk.inj he).1.symm
      refine ⟨Db.stock_post_of_ne hne, [], (Db.journal_post item warehouse).trans ?_,
        fun r hr => absurd hr List.not_mem_nil, rfl⟩
      exact congrArg _ (if_neg hne)

theorem adjustItems_adjusted {xs : List (ID × ℤ)}
    (h : (Prog.forEach xs (adjustItem .i64 checkId warehouse)).Runs v w (.ok ()))
    (hxs : ∀ x ∈ xs, Arith.i64.Fits x.2) (hv : Arith.i64.Fits (v.stock item warehouse)) :
    Adjusted checkId warehouse item (counts item xs) v w := by
  induction xs generalizing v with
  | nil =>
    simp only [Prog.forEach, Prog.runs_ret] at h
    obtain ⟨rfl, -⟩ := h
    exact .of_eq rfl rfl
  | cons x xs ih =>
    obtain ⟨u, hx, hrest⟩ := Prog.runs_forEach_cons_ok.mp h
    have hfits := hxs x List.mem_cons_self
    have h₁ : Adjusted checkId warehouse item _ v u := adjustItem_adjusted hx hfits hv
    have hu : Arith.i64.Fits (u.stock item warehouse) := by
      rw [h₁.stock]
      split
      · exact hfits
      · exact hv
    rw [counts_cons]
    exact h₁.trans (ih hrest (fun y hy => hxs y (List.mem_cons_of_mem x hy)) hu)

/-- An approval that goes through adjusts the stocks to the quantities of its lines. -/
theorem execute_adjusted {ctx : Operator} {id : ID} {response : CheckActionResponse}
    (h : (execute .i64 ctx id).Runs v w (.ok response)) {r : InventoryCheck}
    (hr : v.inventoryChecks.get? id = some r)
    (hlines : ∀ l ∈ v.checkLines id, Arith.i64.Fits l.actualQty)
    (hv : Arith.i64.Fits (v.stock item r.warehouseId)) :
    Adjusted id r.warehouseId item (counts item (items id v)) v w := by
  obtain ⟨row, now, u, logs, hrow, -, hloop, rfl⟩ := execute_runs_ok h
  obtain rfl : row = r := Option.some.inj (hrow.symm.trans hr)
  have hxs : ∀ x ∈ items id v, Arith.i64.Fits x.2 := by
    intro x hx
    obtain ⟨l, hl, rfl⟩ := List.mem_map.mp hx
    exact hlines l hl
  have hdone := adjustItems_adjusted hloop hxs hv
  exact ⟨hdone.stock, hdone.journal⟩

end InventoryCheckApprove

end Slab
