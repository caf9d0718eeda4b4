import Slab.Erp.PurchaseOrders

/-!
# Creation of orders

What the handlers that create sales and purchase orders write: a header with the total of the
order, and its lines with their numbers and totals.

## Main definitions

- `SalesOrderCreate.execute` — the handler of `POST /api/v1/sales-orders`
- `OrderSheet` — an order as its header and lines tell it; `exactSheet` is what a request asks for
- `OrderBook.Adds` — an order has been added as a sheet
- `Representable` — the numbers of an order fit into their columns

## Main results

- `SalesOrderCreate.execute_adds`, `PurchaseOrderCreate.execute_adds` — what is written, wrapped
- `wrappedSheet_eq_exactSheet` — it is what was asked for iff that can be represented
- `creation_lawful_iff` — creation does what it should on exactly these requests
-/

namespace Slab

open Txn

namespace SalesOrderCreate

open PurchaseOrderCreate (CreateOrderLine lineIds lineNo lineTotal totalAmount)

/-- The lines are those of purchase orders. -/
structure CreateSalesOrderRequest where
  customerId : ID
  lines : List CreateOrderLine
deriving DecidableEq

structure CreateSalesOrderResponse where
  id : ID
  code : String
deriving DecidableEq

def storeOrder (row : SalesOrder) (db : Db) : Db :=
  { db with salesOrders := db.salesOrders.insert row }

/-- The stored line. -/
def orderLine (i : ℕ) (lineId orderId : ID) (line : CreateOrderLine) : SalesOrderLine where
  id := lineId
  orderId := orderId
  itemId := line.itemId
  quantity := line.quantity
  deliveredQty := 0
  closed := false
  lineNo := lineNo i
  unitPrice := line.unitPrice
  lineTotal := lineTotal line

/-- One round of `for (i, (line_id, line)) in lines.into_iter().enumerate()`. -/
def insertLine (orderId : ID) (line : (ID × CreateOrderLine) × ℕ) : Handler Unit :=
  insertRow .salesOrderLines line.1.1 (fun db => db.salesOrderLines.has line.1.1) fun db =>
    { db with
      salesOrderLines := db.salesOrderLines.insert (orderLine line.2 line.1.1 orderId line.1.2) }

/-- The audit row, from the order read back. -/
def recordOrder (ctx : Operator) (id : ID) : Handler Unit := do
  let row ← Prog.select fun db => db.salesOrders.get? id
  let order ← Prog.orFail row (.sql .rowNotFound)
  AuditService.recordCreate "sales_order" id ctx (.salesOrder order)

def execute (ctx : Operator) (request : CreateSalesOrderRequest) :
    Handler CreateSalesOrderResponse := do
  Prog.ensure (!request.lines.isEmpty) (.sales .emptyOrder)
  let id ← ask .newId
  let code ← DocNumberer.nextNumber "seq_sales_order" "SO"
  let lines ← lineIds request.lines
  insertRow .salesOrders id (fun db => db.salesOrders.has id)
    (storeOrder {
      id := id, customerId := request.customerId, status := 0
      totalAmount := totalAmount request.lines })
  Prog.forEach lines.zipIdx (insertLine id)
  recordOrder ctx id
  pure { id := id, code := code }

end SalesOrderCreate

open PurchaseOrderCreate (CreateOrderLine lineIds lineNo lineTotal totalAmount)

/-! ## Orders as they are told -/

structure SheetLine where
  lineNo : ℤ
  itemId : ID
  quantity : ℤ
  unitPrice : ℤ
  lineTotal : ℤ
deriving DecidableEq

/-- The amount of an order and its lines in order. -/
@[ext] structure OrderSheet where
  totalAmount : ℤ
  lines : List SheetLine
deriving DecidableEq

/-- The `i`-th line of a request with the numbers that it asks for. -/
def exactLine (line : CreateOrderLine) (i : ℕ) : SheetLine where
  lineNo := i + 1
  itemId := line.itemId
  quantity := line.quantity
  unitPrice := line.unitPrice
  lineTotal := line.quantity * line.unitPrice

/-- What a request asks for, in exact integers. -/
def exactSheet (lines : List CreateOrderLine) : OrderSheet where
  totalAmount := (lines.map fun line => line.quantity * line.unitPrice).sum
  lines := lines.zipIdx.map fun x => exactLine x.1 x.2

/-- The same line as the machine computes it. -/
def wrappedLine (line : CreateOrderLine) (i : ℕ) : SheetLine where
  lineNo := lineNo i
  itemId := line.itemId
  quantity := line.quantity
  unitPrice := line.unitPrice
  lineTotal := lineTotal line

def wrappedSheet (lines : List CreateOrderLine) : OrderSheet where
  totalAmount := totalAmount lines
  lines := lines.zipIdx.map fun x => wrappedLine x.1 x.2

/-- Every number that the request asks for fits into its column. -/
def Representable (lines : List CreateOrderLine) : Prop :=
  (∀ line ∈ lines, Arith.i64.Fits (line.quantity * line.unitPrice)) ∧
    Arith.i64.Fits (lines.map fun line => line.quantity * line.unitPrice).sum ∧
    lines.length < 2 ^ 15

instance (lines : List CreateOrderLine) : Decidable (Representable lines) :=
  inferInstanceAs (Decidable (_ ∧ _ ∧ _))

theorem lineNo_eq_iff (i : ℕ) : lineNo i = i + 1 ↔ i + 1 < 2 ^ 15 := by
  have hline : lineNo i = Arith.i16.norm (i + 1) := Arith.i16.norm_add i 1
  have hfits := Arith.fits_i16_iff (x := (i : ℤ) + 1)
  rw [hline]
  refine hfits.trans ?_
  omega

theorem wrappedLine_eq_iff (line : CreateOrderLine) (i : ℕ) :
    wrappedLine line i = exactLine line i ↔
      i + 1 < 2 ^ 15 ∧ Arith.i64.Fits (line.quantity * line.unitPrice) := by
  rw [← lineNo_eq_iff]
  simp only [wrappedLine, exactLine, SheetLine.mk.injEq, true_and]
  rfl

/-- The lines come out as they were asked for iff their numbers fit. -/
theorem wrappedLines_eq_iff (lines : List CreateOrderLine) :
    (wrappedSheet lines).lines = (exactSheet lines).lines ↔
      (∀ line ∈ lines, Arith.i64.Fits (line.quantity * line.unitPrice)) ∧
        lines.length < 2 ^ 15 := by
  simp only [wrappedSheet, exactSheet, List.map_inj_left, wrappedLine_eq_iff]
  constructor
  · intro h
    constructor
    · intro line hline
      obtain ⟨i, hi, rfl⟩ := List.getElem_of_mem hline
      exact (h (lines[i], i) (List.mk_mem_zipIdx_iff_getElem?.mpr (List.getElem?_eq_getElem hi))).2
    · cases hn : lines.length with
      | zero => norm_num
      | succ n =>
        have hi : n < lines.length := by omega
        exact (h (lines[n], n)
          (List.mk_mem_zipIdx_iff_getElem?.mpr (List.getElem?_eq_getElem hi))).1
  · rintro ⟨hfits, hlen⟩ ⟨line, i⟩ hx
    have hget := List.mk_mem_zipIdx_iff_getElem?.mp hx
    obtain ⟨hi, -⟩ := List.getElem?_eq_some_iff.mp hget
    exact ⟨by omega, hfits line (List.mem_of_getElem? hget)⟩

/-- The sheet comes out as it was asked for iff that can be represented. -/
theorem wrappedSheet_eq_exactSheet (lines : List CreateOrderLine) :
    wrappedSheet lines = exactSheet lines ↔ Representable lines := by
  have htotal : (∀ line ∈ lines, Arith.i64.Fits (line.quantity * line.unitPrice)) →
      (totalAmount lines = (exactSheet lines).totalAmount ↔
        Arith.i64.Fits (exactSheet lines).totalAmount) := by
    intro hfits
    have hmap : lines.map lineTotal = lines.map fun line => line.quantity * line.unitPrice :=
      List.map_congr_left fun line hline => hfits line hline
    rw [totalAmount, Arith.addAll_zero (by decide), hmap]
    rfl
  rw [OrderSheet.ext_iff, wrappedLines_eq_iff]
  constructor
  · rintro ⟨ht, hfits, hlen⟩
    exact ⟨hfits, (htotal hfits).mp ht, hlen⟩
  · rintro ⟨hfits, ht, hlen⟩
    exact ⟨(htotal hfits).mpr ht, hfits, hlen⟩

/-! ## What the handlers write -/

/-- The orders of one kind as they are stored: their totals, and all their lines in the order in
which they were written. -/
structure OrderBook where
  total? : ID → Option ℤ
  lines : List (ID × SheetLine)

/-- A new order has been added as a sheet. -/
def OrderBook.Adds (before after : OrderBook) (id : ID) (sheet : OrderSheet) : Prop :=
  before.total? id = none ∧ after.total? id = some sheet.totalAmount ∧
    after.lines = before.lines ++ sheet.lines.map (Prod.mk id)

/-- An order is added as one sheet only. -/
theorem OrderBook.Adds.unique {before after : OrderBook} {id : ID} {s t : OrderSheet}
    (hs : before.Adds after id s) (ht : before.Adds after id t) : s = t := by
  obtain ⟨-, hst, hsl⟩ := hs
  obtain ⟨-, htt, htl⟩ := ht
  apply OrderSheet.ext
  · exact Option.some.inj (hst.symm.trans htt)
  · have hmap := List.append_cancel_left (hsl.symm.trans htl)
    exact List.map_injective_iff.mpr (Prod.mk_right_injective id) hmap

def SalesOrderLine.sheetLine (r : SalesOrderLine) : ID × SheetLine :=
  (r.orderId, {
    lineNo := r.lineNo, itemId := r.itemId, quantity := r.quantity
    unitPrice := r.unitPrice, lineTotal := r.lineTotal })

def PurchaseOrderLine.sheetLine (r : PurchaseOrderLine) : ID × SheetLine :=
  (r.orderId, {
    lineNo := r.lineNo, itemId := r.itemId, quantity := r.quantity
    unitPrice := r.unitPrice, lineTotal := r.lineTotal })

def Db.salesBook (db : Db) : OrderBook where
  total? id := (db.salesOrders.get? id).map SalesOrder.totalAmount
  lines := db.salesOrderLines.rows.map SalesOrderLine.sheetLine

def Db.purchaseBook (db : Db) : OrderBook where
  total? id := (db.purchaseOrders.get? id).map PurchaseOrder.totalAmount
  lines := db.purchaseOrderLines.rows.map PurchaseOrderLine.sheetLine

/-! ## What the two handlers have in common -/

/-- A kind of order: how its handler stores the header and the lines, where they are read back, and
that they are stored as new rows. -/
structure OrderKind where
  emptyOrder : AppError
  seqName : String
  docPrefix : String
  table : TableName
  has : Db → ID → Bool
  hasLine : Db → ID → Bool
  store : ID → ℤ → Db → Db
  insertLine : ID → (ID × CreateOrderLine) × ℕ → Handler Unit
  record : ID → Handler Unit
  book : Db → OrderBook
  exists_free : ∀ v, ∃ id, has v id = false
  exists_freeLine : ∀ v, ∃ taken : Finset ID, ∀ j ∉ taken, hasLine v j = false
  store_adds : ∀ {id v} total, has v id = false → (book v).total? id = none ∧
    (book (store id total v)).total? id = some total ∧
    (book (store id total v)).lines = (book v).lines ∧ hasLine (store id total v) = hasLine v
  insertLine_adds : ∀ {id x v w}, (insertLine id x).Runs v w (.ok ()) →
    (book w).total? = (book v).total? ∧
      (book w).lines = (book v).lines ++ [(id, wrappedLine x.1.2 x.2)]
  insertLine_run : ∀ id {x v}, hasLine v x.1.1 = false →
    ∃ w, (insertLine id x).Runs v w (.ok ()) ∧ ∀ j, j ≠ x.1.1 → hasLine w j = hasLine v j
  record_keeps : ∀ {id v w}, (record id).Runs v w (.ok ()) → book w = book v
  record_run : ∀ {id v total}, (book v).total? id = some total →
    ∃ w, (record id).Runs v w (.ok ())

/-- The identifiers are asked for and written to the left of the lines. -/
theorem lineIds_runs_ok {lines : List CreateOrderLine} {v w : Db}
    {found : List (ID × CreateOrderLine)} (h : (lineIds lines).Runs v w (.ok found)) :
    w = v ∧ found.map Prod.snd = lines := by
  induction lines generalizing found with
  | nil =>
    obtain ⟨rfl, hfound⟩ := h
    cases hfound
    exact ⟨rfl, rfl⟩
  | cons line lines ih =>
    simp only [lineIds, Prog.runs_bind_ok, ask, Prog.runs_ask, Prog.pure_eq, Prog.runs_ret] at h
    obtain ⟨_, lineId, ⟨rfl, -⟩, _, rest, hrest, rfl, hfound⟩ := h
    obtain ⟨rfl, hmap⟩ := ih hrest
    cases hfound
    exact ⟨rfl, congrArg (line :: ·) hmap⟩

/-- Identifiers can be new, whatever is taken. -/
theorem lineIds_run (lines : List CreateOrderLine) (taken : Finset ID) (v : Db) :
    ∃ found, (lineIds lines).Runs v v (.ok found) ∧ (found.map Prod.fst).Nodup ∧
      ∀ j ∈ found.map Prod.fst, j ∉ taken := by
  induction lines generalizing taken with
  | nil => exact ⟨[], ⟨rfl, rfl⟩, List.nodup_nil, by simp⟩
  | cons line lines ih =>
    obtain ⟨j, hj⟩ := Infinite.exists_notMem_finset taken
    obtain ⟨rest, hruns, hnodup, hfree⟩ := ih (insert j taken)
    refine ⟨(j, line) :: rest, ?_, ?_, ?_⟩
    · simp only [lineIds, Prog.runs_bind_ok, ask, Prog.runs_ask]
      exact ⟨v, j, ⟨rfl, j, rfl⟩, v, rest, hruns, rfl, rfl⟩
    · exact List.nodup_cons.mpr
        ⟨fun hmem => hfree j hmem (Finset.mem_insert_self j taken), hnodup⟩
    · intro i hi
      rcases List.mem_cons.mp hi with rfl | hi
      · exact hj
      · exact fun hmem => hfree i hi (Finset.mem_insert_of_mem hmem)

namespace OrderKind

variable (kind : OrderKind) {β : Type} (respond : ID → String → β)

/-- The handler of a kind. -/
def create (lines : List CreateOrderLine) : Handler β := do
  Prog.ensure (!lines.isEmpty) kind.emptyOrder
  let id ← ask .newId
  let code ← DocNumberer.nextNumber kind.seqName kind.docPrefix
  let found ← lineIds lines
  insertRow kind.table id (fun db => kind.has db id) (kind.store id (totalAmount lines))
  Prog.forEach found.zipIdx (kind.insertLine id)
  kind.record id
  pure (respond id code)

variable {kind respond}

/-- The loop writes all lines in order. -/
theorem insertLines_adds {id : ID} {lines : List (ID × CreateOrderLine)} {k : ℕ} {v w : Db}
    (h : (Prog.forEach (lines.zipIdx k) (kind.insertLine id)).Runs v w (.ok ())) :
    (kind.book w).total? = (kind.book v).total? ∧ (kind.book w).lines = (kind.book v).lines ++
      ((lines.map Prod.snd).zipIdx k).map fun x => (id, wrappedLine x.1 x.2) := by
  induction lines generalizing k v with
  | nil =>
    obtain ⟨rfl, -⟩ := h
    simp
  | cons x lines ih =>
    obtain ⟨u, h₁, h₂⟩ := Prog.runs_forEach_cons_ok.mp h
    obtain ⟨ht₁, hl₁⟩ := kind.insertLine_adds h₁
    obtain ⟨ht₂, hl₂⟩ := ih h₂
    refine ⟨ht₂.trans ht₁, ?_⟩
    rw [hl₂, hl₁]
    simp

/-- The loop runs to its end when all identifiers of the lines are free. -/
theorem insertLines_run (id : ID) {lines : List (ID × CreateOrderLine)}
    (hnodup : (lines.map Prod.fst).Nodup) {k : ℕ} {v : Db}
    (hfree : ∀ j ∈ lines.map Prod.fst, kind.hasLine v j = false) :
    ∃ w, (Prog.forEach (lines.zipIdx k) (kind.insertLine id)).Runs v w (.ok ()) := by
  induction lines generalizing k v with
  | nil => exact ⟨v, rfl, rfl⟩
  | cons x lines ih =>
    obtain ⟨hx, hrest⟩ := List.nodup_cons.mp hnodup
    obtain ⟨u, h₁, hhas⟩ := kind.insertLine_run id (x := (x, k)) (hfree _ List.mem_cons_self)
    obtain ⟨w, h₂⟩ := ih hrest (k := k + 1) (v := u) fun j hj => by
      rw [hhas j fun he => hx (he ▸ hj)]
      exact hfree j (List.mem_cons_of_mem _ hj)
    exact ⟨w, Prog.runs_forEach_cons_ok.mpr ⟨u, h₁, h₂⟩⟩

/-- An order that is created is added as its sheet, wrapped. -/
theorem create_adds {lines : List CreateOrderLine} {v w : Db} {b : β}
    (h : (kind.create respond lines).Runs v w (.ok b)) :
    ∃ id code, b = respond id code ∧
      (kind.book v).Adds (kind.book w) id (wrappedSheet lines) := by
  simp only [create, Prog.runs_bind_ok, Prog.runs_ensure_ok, ask, Prog.runs_ask, Prog.pure_eq,
    Prog.runs_ret, insertRow, Prog.runs_insert_ok, unique_eq_none] at h
  obtain ⟨_, _, ⟨rfl, -⟩, _, id, ⟨rfl, -⟩, _, code, hcode, _, found, hfound, _, _, ⟨hfree, rfl⟩, _,
    _, hloop, _, _, hrecord, rfl, hb⟩ := h
  obtain rfl := (DocNumberer.nextNumber_preserves (fun db => db) _ _).runs hcode
  obtain ⟨rfl, rfl⟩ := lineIds_runs_ok hfound
  obtain ⟨hnew, htotal, hlines, -⟩ := kind.store_adds (totalAmount (found.map Prod.snd)) hfree
  obtain ⟨ht, hl⟩ := insertLines_adds hloop
  refine ⟨id, code, Except.ok.inj hb, hnew, ?_, ?_⟩
  · rw [kind.record_keeps hrecord, ht, htotal]
    rfl
  · rw [kind.record_keeps hrecord, hl, hlines]
    simp [wrappedSheet]

/-- No request with a line is refused, whatever its numbers. -/
theorem create_run {lines : List CreateOrderLine} (hlines : lines ≠ []) (v : Db) :
    ∃ w b, (kind.create respond lines).Runs v w (.ok b) := by
  obtain ⟨id, hid⟩ := kind.exists_free v
  obtain ⟨taken, htaken⟩ := kind.exists_freeLine v
  obtain ⟨found, hfound, hnodup, hfree⟩ := lineIds_run lines taken v
  obtain ⟨-, htotal, -, hhas⟩ := kind.store_adds (totalAmount lines) hid
  obtain ⟨w, hloop⟩ := insertLines_run id hnodup (k := 0)
    (v := kind.store id (totalAmount lines) v) fun j hj => by
      rw [hhas]
      exact htaken j (hfree j hj)
  obtain ⟨ht, -⟩ := insertLines_adds hloop
  obtain ⟨u, hrecord⟩ := kind.record_run ((congrFun ht id).trans htotal)
  obtain ⟨code, hcode⟩ := DocNumberer.nextNumber_run kind.seqName kind.docPrefix v
  refine ⟨u, respond id code, ?_⟩
  simp only [create, Prog.runs_bind_ok, Prog.runs_ensure_ok, ask, Prog.runs_ask, Prog.pure_eq,
    Prog.runs_ret, insertRow, Prog.runs_insert_ok, unique_eq_none]
  exact ⟨v, (), ⟨rfl, by simpa using hlines⟩, v, id, ⟨rfl, id, rfl⟩, v, code, hcode, v, found,
    hfound, _, (), ⟨hid, rfl⟩, w, (), hloop, u, (), hrecord, rfl, rfl⟩

end OrderKind

/-! ## Lawful creation -/

/-- What creation should do: the order it reports is added exactly as it was asked for, which
could be represented; and nothing is there of one that it refuses. -/
def Lawful (book : Db → OrderBook) (lines : List CreateOrderLine) (v w : Db) :
    Except AppError ID → Prop
  | .ok id => Representable lines ∧ (book v).Adds (book w) id (exactSheet lines)
  | .error _ => w = v

/-- The handler adds what it was asked for iff that can be represented. -/
theorem OrderKind.create_exact_iff {kind : OrderKind} {β : Type} {respond : ID → String → β}
    {idOf : β → ID} (hid : ∀ id code, idOf (respond id code) = id) {lines : List CreateOrderLine}
    {v w : Db} {b : β} (h : (kind.create respond lines).Runs v w (.ok b)) :
    (kind.book v).Adds (kind.book w) (idOf b) (exactSheet lines) ↔ Representable lines := by
  obtain ⟨id, code, rfl, hadds⟩ := OrderKind.create_adds h
  rw [hid, ← wrappedSheet_eq_exactSheet]
  constructor
  · exact hadds.unique
  · intro he
    exact he ▸ hadds

theorem OrderKind.create_lawful_iff {kind : OrderKind} {β : Type} {respond : ID → String → β}
    {idOf : β → ID} (hid : ∀ id code, idOf (respond id code) = id) (lines : List CreateOrderLine)
    (v : Db) :
    (∀ w r, (kind.create respond lines).Transacts v w r →
      Lawful kind.book lines v w (r.map idOf)) ↔ Representable lines := by
  constructor
  · intro h
    by_cases hlines : lines = []
    · subst hlines
      decide
    · obtain ⟨w, b, hrun⟩ : ∃ w b, (kind.create respond lines).Runs v w (.ok b) :=
        kind.create_run hlines v
      exact (h w (.ok b) (Prog.transacts_ok.mpr hrun)).1
  · intro h w r hrun
    cases r with
    | error e => exact hrun.of_error
    | ok b => exact ⟨h, (OrderKind.create_exact_iff hid (Prog.transacts_ok.mp hrun)).mpr h⟩

/-! ## The two handlers -/

theorem exists_free {ρ : Type} {key : ρ → ID} (t : Table key) :
    ∃ taken : Finset ID, ∀ j ∉ taken, t.has j = false := by
  refine ⟨(t.rows.map key).toFinset, fun j hj => ?_⟩
  rw [Table.has_eq_false, Table.get?_eq_none]
  intro r hr hk
  exact hj (List.mem_toFinset.mpr (List.mem_map.mpr ⟨r, hr, hk⟩))

theorem has_insert_of_ne {ρ : Type} {key : ρ → ID} {t : Table key} {r : ρ} {j : ID}
    (hj : j ≠ key r) : (t.insert r).has j = t.has j := by
  rw [Table.has_insert]
  simp [hj.symm]

/-- The lines of a table when a row has been inserted under a free identifier. -/
theorem map_rows_insert {ρ : Type} {key : ρ → ID} {t : Table key} {r : ρ}
    (hfree : t.has (key r) = false) (f : ρ → ID × SheetLine) :
    (t.insert r).rows.map f = t.rows.map f ++ [f r] := by
  rw [Table.rows_insert (Table.has_eq_false.mp hfree), List.map_append]
  rfl

namespace SalesOrderCreate

theorem orderLine_sheetLine (i : ℕ) (lineId orderId : ID) (line : CreateOrderLine) :
    (orderLine i lineId orderId line).sheetLine = (orderId, wrappedLine line i) := by
  simp only [SalesOrderLine.sheetLine, orderLine, wrappedLine]

theorem insertLine_runs_ok {id : ID} {x : (ID × CreateOrderLine) × ℕ} {v w : Db} :
    (insertLine id x).Runs v w (.ok ()) ↔ v.salesOrderLines.has x.1.1 = false ∧
      w = { v with
        salesOrderLines := v.salesOrderLines.insert (orderLine x.2 x.1.1 id x.1.2) } := by
  simp only [insertLine, insertRow, Prog.runs_insert_ok, unique_eq_none]

def kind (ctx : Operator) (customerId : ID) : OrderKind where
  emptyOrder := .sales .emptyOrder
  seqName := "seq_sales_order"
  docPrefix := "SO"
  table := .salesOrders
  has db id := db.salesOrders.has id
  hasLine db id := db.salesOrderLines.has id
  store id total := storeOrder {
    id := id, customerId := customerId, status := 0, totalAmount := total }
  insertLine := insertLine
  record := recordOrder ctx
  book := Db.salesBook
  exists_free v := by
    obtain ⟨taken, htaken⟩ := exists_free v.salesOrders
    obtain ⟨id, hid⟩ := Infinite.exists_notMem_finset taken
    exact ⟨id, htaken id hid⟩
  exists_freeLine v := exists_free v.salesOrderLines
  store_adds total h := by
    have habsent := Table.has_eq_false.mp h
    refine ⟨?_, ?_, rfl, rfl⟩
    · exact congrArg (Option.map SalesOrder.totalAmount) habsent
    · exact congrArg (Option.map SalesOrder.totalAmount) (Table.get?_insert_self habsent)
  insertLine_adds h := by
    obtain ⟨hfree, rfl⟩ := insertLine_runs_ok.mp h
    refine ⟨rfl, (map_rows_insert hfree _).trans ?_⟩
    rw [orderLine_sheetLine]
    rfl
  insertLine_run id x v h :=
    ⟨_, insertLine_runs_ok.mpr ⟨h, rfl⟩, fun _ hj => has_insert_of_ne hj⟩
  record_keeps h := by
    simp only [recordOrder, Prog.runs_bind_ok, Prog.runs_select, Prog.runs_orFail_ok] at h
    obtain ⟨_, _, ⟨rfl, -⟩, _, _, ⟨rfl, -⟩, hrec⟩ := h
    obtain ⟨-, row, rfl⟩ := AuditService.record_runs hrec
    rfl
  record_run {id v total} h := by
    obtain ⟨row, hrow, -⟩ := Option.map_eq_some_iff.mp h
    obtain ⟨w, hrec⟩ := AuditService.record_run "sales_order" .created id ctx none
      (some (.salesOrder row)) v
    refine ⟨w, ?_⟩
    simp only [recordOrder, Prog.runs_bind_ok, Prog.runs_select, Prog.runs_orFail_ok]
    exact ⟨v, _, ⟨rfl, rfl⟩, v, row, ⟨rfl, hrow⟩, hrec⟩

theorem execute_eq_create (ctx : Operator) (request : CreateSalesOrderRequest) :
    execute ctx request = (kind ctx request.customerId).create
      (fun id code => { id := id, code := code }) request.lines := rfl

end SalesOrderCreate

namespace PurchaseOrderCreate

theorem orderLine_sheetLine (i : ℕ) (lineId orderId : ID) (line : CreateOrderLine) :
    (orderLine i lineId orderId line).sheetLine = (orderId, wrappedLine line i) := by
  simp only [PurchaseOrderLine.sheetLine, orderLine, wrappedLine]

theorem insertLine_runs_ok {id : ID} {x : (ID × CreateOrderLine) × ℕ} {v w : Db} :
    (insertLine id x).Runs v w (.ok ()) ↔ v.purchaseOrderLines.has x.1.1 = false ∧
      w = { v with
        purchaseOrderLines := v.purchaseOrderLines.insert (orderLine x.2 x.1.1 id x.1.2) } := by
  simp only [insertLine, insertRow, Prog.runs_insert_ok, unique_eq_none]

def kind (ctx : Operator) (supplierId : ID) : OrderKind where
  emptyOrder := .purchase .emptyOrder
  seqName := "seq_purchase_order"
  docPrefix := "PO"
  table := .purchaseOrders
  has db id := db.purchaseOrders.has id
  hasLine db id := db.purchaseOrderLines.has id
  store id total := storeOrder {
    id := id, supplierId := supplierId, status := 0, totalAmount := total }
  insertLine := insertLine
  record := recordOrder ctx
  book := Db.purchaseBook
  exists_free v := by
    obtain ⟨taken, htaken⟩ := exists_free v.purchaseOrders
    obtain ⟨id, hid⟩ := Infinite.exists_notMem_finset taken
    exact ⟨id, htaken id hid⟩
  exists_freeLine v := exists_free v.purchaseOrderLines
  store_adds total h := by
    have habsent := Table.has_eq_false.mp h
    refine ⟨?_, ?_, rfl, rfl⟩
    · exact congrArg (Option.map PurchaseOrder.totalAmount) habsent
    · exact congrArg (Option.map PurchaseOrder.totalAmount) (Table.get?_insert_self habsent)
  insertLine_adds h := by
    obtain ⟨hfree, rfl⟩ := insertLine_runs_ok.mp h
    refine ⟨rfl, (map_rows_insert hfree _).trans ?_⟩
    rw [orderLine_sheetLine]
    rfl
  insertLine_run id x v h :=
    ⟨_, insertLine_runs_ok.mpr ⟨h, rfl⟩, fun _ hj => has_insert_of_ne hj⟩
  record_keeps h := by
    simp only [recordOrder, Prog.runs_bind_ok, Prog.runs_select, Prog.runs_orFail_ok] at h
    obtain ⟨_, _, ⟨rfl, -⟩, _, _, ⟨rfl, -⟩, hrec⟩ := h
    obtain ⟨-, row, rfl⟩ := AuditService.record_runs hrec
    rfl
  record_run {id v total} h := by
    obtain ⟨row, hrow, -⟩ := Option.map_eq_some_iff.mp h
    obtain ⟨w, hrec⟩ := AuditService.record_run "purchase_order" .created id ctx none
      (some (.purchaseOrder row)) v
    refine ⟨w, ?_⟩
    simp only [recordOrder, Prog.runs_bind_ok, Prog.runs_select, Prog.runs_orFail_ok]
    exact ⟨v, _, ⟨rfl, rfl⟩, v, row, ⟨rfl, hrow⟩, hrec⟩

theorem execute_eq_create (ctx : Operator) (request : CreatePurchaseOrderRequest) :
    execute ctx request = (kind ctx request.supplierId).create
      (fun id code => { id := id, code := code }) request.lines := rfl

end PurchaseOrderCreate

/-- Sales and purchase orders are created exactly as they were asked for, or refused without a
trace, iff their numbers can be represented; and each one that is created is exact on the same
condition. -/
theorem creation_lawful_iff (ctx : Operator) (sale : SalesOrderCreate.CreateSalesOrderRequest)
    (purchase : PurchaseOrderCreate.CreatePurchaseOrderRequest) (v : Db) :
    ((∀ w r, (SalesOrderCreate.execute ctx sale).Transacts v w r →
        Lawful Db.salesBook sale.lines v w (r.map (·.id))) ↔ Representable sale.lines) ∧
    (∀ w response, (SalesOrderCreate.execute ctx sale).Runs v w (.ok response) →
      (v.salesBook.Adds w.salesBook response.id (exactSheet sale.lines) ↔
        Representable sale.lines)) ∧
    ((∀ w r, (PurchaseOrderCreate.execute ctx purchase).Transacts v w r →
        Lawful Db.purchaseBook purchase.lines v w (r.map (·.id))) ↔
      Representable purchase.lines) ∧
    ∀ w response, (PurchaseOrderCreate.execute ctx purchase).Runs v w (.ok response) →
      (v.purchaseBook.Adds w.purchaseBook response.id (exactSheet purchase.lines) ↔
        Representable purchase.lines) := by
  rw [SalesOrderCreate.execute_eq_create, PurchaseOrderCreate.execute_eq_create]
  have hs := @OrderKind.create_exact_iff (SalesOrderCreate.kind ctx sale.customerId)
  have hp := @OrderKind.create_exact_iff (PurchaseOrderCreate.kind ctx purchase.supplierId)
  refine ⟨?_, ?_, ?_, ?_⟩
  · exact OrderKind.create_lawful_iff (fun _ _ => rfl) sale.lines v
  · intro w response h
    exact hs (fun _ _ => rfl) h
  · exact OrderKind.create_lawful_iff (fun _ _ => rfl) purchase.lines v
  · intro w response h
    exact hp (fun _ _ => rfl) h

/-- One line of 2³¹ pieces at 2³² each. -/
def hugeOrder : SalesOrderCreate.CreateSalesOrderRequest where
  customerId := 1
  lines := [{ itemId := 1, quantity := 2 ^ 31, unitPrice := 2 ^ 32 }]

/-- The total of such an order is stored as -2⁶³. -/
theorem total_wraps :
    ∃ w response, (SalesOrderCreate.execute ⟨1, none, none⟩ hugeOrder).Transacts Db.empty w
        (.ok response) ∧
      w.salesBook.total? response.id = some (-2 ^ 63) ∧
      (exactSheet hugeOrder.lines).totalAmount = 2 ^ 63 ∧
      ¬ Lawful Db.salesBook hugeOrder.lines Db.empty w (.ok response.id) := by
  let served := (SalesOrderCreate.execute ⟨1, none, none⟩ hugeOrder).transact (numbered 1) Db.empty
  have hid : served.2.toOption.map (·.id) = some 1 := by decide +kernel
  obtain ⟨response, hresponse, hone⟩ := Option.map_eq_some_iff.mp hid
  refine ⟨served.1, response, Prog.transacts_of_toOption hresponse, ?_, by decide +kernel, ?_⟩
  · rw [hone]
    decide +kernel
  · intro h
    have hfits : ¬ Representable hugeOrder.lines := by decide +kernel
    exact hfits h.1

end Slab
