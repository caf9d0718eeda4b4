import Slab.Erp.Db
import Slab.Sql.Relation

/-!
# Planning reads

The two queries of `PlanningPort`, over any contents of the tables. Their sums are exact: a sum
that does not fit into `BIGINT` makes the query fail.

## Main definitions

- `PlanningPort.stockAndTransit`, `PlanningPort.mrpCalculate` — the queries
- `Db.total`, `Db.inTransit`, `Db.exploded` — what their columns are to mean

## Main results

- `PlanningPort.mem_stockAndTransit`, `PlanningPort.mem_mrpCalculate` — the rows and their columns
- `PlanningPort.coalesce_grossDemand` — what the joins of the demand add up to
-/

namespace Slab

open Txn Relation

namespace PlanningPort

structure ItemStockAggregate where
  itemId : ID
  itemCode : String
  itemName : String
  itemType : ℤ
  safetyStock : ℤ
  reorderPoint : ℤ
  currentStock : ℤ
  inTransitQty : ℤ
deriving DecidableEq

structure MrpItem where
  itemId : ID
  itemCode : String
  itemName : String
  grossDemand : ℤ
  currentStock : ℤ
  inTransitQty : ℤ
  netDemand : ℤ
  safetyStock : ℤ
  suggestedOrderQty : ℤ
deriving DecidableEq

def PURCHASE_ORDER_APPROVED : ℤ := 3

def BOM_RELEASED : ℤ := 1

/-! ## Stock and transit -/

/-- `GROUP BY i.id, i.code, i.name, i.item_type, i.safety_stock, i.reorder_point`. -/
def groupColumns (i : ItemRow) : ID × String × String × ℤ × ℤ × ℤ :=
  (i.id, i.code, i.name, i.itemType, i.safetyStock, i.reorderPoint)

/-- `purchase_order_lines pol JOIN purchase_orders po ON po.id = pol.order_id`. -/
def orderedLines (db : Db) : List (PurchaseOrderLine × PurchaseOrder) :=
  join (fun pol po => po.id = pol.orderId) db.purchaseOrderLines.rows db.purchaseOrders.rows

/-- `pol.quantity - pol.received_qty`. -/
def openQty : PurchaseOrderLine × PurchaseOrder → ℤ
  | (pol, _) => pol.quantity - pol.receivedQty

/-- The correlated subquery for the item `id`. -/
def transitSubquery (db : Db) (id : ID) : Option ℤ :=
  sum? (fun p => some (openQty p)) <| (orderedLines db).filter fun (pol, po) =>
    po.status = PURCHASE_ORDER_APPROVED ∧ pol.itemId = id ∧ pol.quantity > pol.receivedQty

/-- One row of the result, from the columns and the rows of a group. -/
def stockAggregate (db : Db) :
    (ID × String × String × ℤ × ℤ × ℤ) × List (ItemRow × Option Inventory) → ItemStockAggregate
  | ((id, code, name, itemType, safetyStock, reorderPoint), rows) => {
    itemId := id
    itemCode := code
    itemName := name
    itemType := itemType
    safetyStock := safetyStock
    reorderPoint := reorderPoint
    currentStock := coalesce (sum? (fun (_, iv) => iv.bind fun iv => some iv.quantity) rows)
    inTransitQty := coalesce (transitSubquery db id) }

/-- `items i LEFT JOIN inventories iv ON iv.item_id = i.id`. -/
def stocked (db : Db) : List (ItemRow × Option Inventory) :=
  leftJoin (fun i iv => iv.itemId = i.id) db.items.rows db.inventories.rows

def stockAndTransit (db : Db) : List ItemStockAggregate :=
  (groupBy (fun p => groupColumns p.1) ((stocked db).filter fun p => p.1.isActive)).map
    (stockAggregate db)

/-! ## Net demand -/

/-- `sales_order_lines sol JOIN sales_orders so … JOIN boms b … JOIN bom_items bi …`. -/
def explodedLines (db : Db) : List (((SalesOrderLine × SalesOrder) × Bom) × BomItem) :=
  join (fun (_, b) bi => bi.bomId = b.id)
    (join (fun (sol, _) b => b.itemId = sol.itemId)
      (join (fun sol so => so.id = sol.orderId) db.salesOrderLines.rows db.salesOrders.rows)
      db.boms.rows)
    db.bomItems.rows

/-- `sol.quantity * bi.quantity`. -/
def explodedQty : ((SalesOrderLine × SalesOrder) × Bom) × BomItem → ℤ
  | (((sol, _), _), bi) => sol.quantity * bi.quantity

/-- `WHERE sol.closed = FALSE AND b.status = $1`. -/
def isDemand : ((SalesOrderLine × SalesOrder) × Bom) × BomItem → Bool
  | (((sol, _), b), _) => !sol.closed && b.status = BOM_RELEASED

def demand (db : Db) : List (ID × Option ℤ) :=
  aggregate (fun (_, bi) => bi.itemId) (sum? fun p => some (explodedQty p))
    ((explodedLines db).filter isDemand)

def stock (db : Db) : List (ID × ℤ) :=
  aggregate Inventory.itemId (fun rows => coalesce (sum? (fun iv => some iv.quantity) rows))
    db.inventories.rows

def transit (db : Db) : List (ID × ℤ) :=
  aggregate (fun (pol, _) => pol.itemId)
    (fun rows => coalesce (sum? (fun p => some (openQty p)) rows)) <|
    (orderedLines db).filter fun (pol, po) =>
      po.status = PURCHASE_ORDER_APPROVED ∧ pol.quantity > pol.receivedQty

/-- A row of the joins: the item, and the columns of `d`, `s` and `t`, which may be `NULL`. -/
abbrev MrpRow := ((ItemRow × Option (ID × Option ℤ)) × Option (ID × ℤ)) × Option (ID × ℤ)

/-- `items i LEFT JOIN demand d … LEFT JOIN stock s … LEFT JOIN transit t …`. -/
def mrpRows (db : Db) : List MrpRow :=
  leftJoin (fun p t => t.1 = p.1.1.id)
    (leftJoin (fun p s => s.1 = p.1.id)
      (leftJoin (fun i d => d.1 = i.id) db.items.rows (demand db)) (stock db)) (transit db)

/-- `WHERE d.gross_demand IS NOT NULL OR i.safety_stock > …`. -/
def isListed : MrpRow → Bool
  | (((i, d), s), t) => (d.bind Prod.snd).isSome ||
    i.safetyStock > coalesce (s.map Prod.snd) + coalesce (t.map Prod.snd)

variable (ar : Arith)

/-- The columns of the result, and the item made of them. -/
def mrpItem : MrpRow → MrpItem
  | (((i, d), s), t) =>
    let grossDemand := coalesce (d.bind Prod.snd)
    let currentStock := coalesce (s.map Prod.snd)
    let inTransitQty := coalesce (t.map Prod.snd)
    let netDemand := max (grossDemand - currentStock - inTransitQty) 0
    { itemId := i.id
      itemCode := i.code
      itemName := i.name
      grossDemand := grossDemand
      currentStock := currentStock
      inTransitQty := inTransitQty
      netDemand := netDemand
      safetyStock := i.safetyStock
      suggestedOrderQty := ar.add netDemand i.safetyStock }

def mrpCalculate (db : Db) : List MrpItem :=
  (((mrpRows db).filter isListed).map (mrpItem ar)).insertionSort
    fun x y => y.netDemand ≤ x.netDemand

end PlanningPort

/-! ## What the columns are to mean -/

namespace Db

/-- What approved purchase orders still have to bring of an item. -/
def inTransit (db : Db) (item : ID) : ℤ :=
  db.purchaseOrderLines.tally
    (fun pol => pol.itemId = item ∧ pol.quantity > pol.receivedQty ∧
      (db.purchaseOrders.get? pol.orderId).any fun po => po.status = 3)
    fun pol => pol.quantity - pol.receivedQty

/-- What a BOM needs of a material. -/
def perUnit (db : Db) (b : Bom) (material : ID) : ℤ :=
  db.bomItems.tally (fun bi => bi.bomId = b.id ∧ bi.itemId = material) BomItem.quantity

/-- The released BOMs of an item. -/
def released (db : Db) (item : ID) : List Bom :=
  db.boms.rows.filter fun b => b.itemId = item ∧ b.status = 1

/-- What all released BOMs of its item make of the quantity of an order line. -/
def exploded (db : Db) (material : ID) (sol : SalesOrderLine) : ℤ :=
  ((db.released sol.itemId).map fun b => sol.quantity * db.perUnit b material).sum

/-- The order lines that are not closed. -/
def openLines (db : Db) : List SalesOrderLine := db.salesOrderLines.rows.filter fun l => !l.closed

end Db

namespace PlanningPort

variable {db : Db}

theorem nodup_groupColumns (db : Db) : (db.items.rows.map groupColumns).Nodup := by
  refine List.Nodup.of_map Prod.fst ?_
  rw [List.map_map]
  exact db.items.nodup

/-! ## The sums of the joins -/

/-- A sum over order lines that are joined to their orders. -/
theorem sum_orderedLines (db : Db) (f : PurchaseOrderLine × PurchaseOrder → ℤ) :
    ((orderedLines db).map f).sum = (db.purchaseOrderLines.rows.map fun pol =>
      ((db.purchaseOrders.get? pol.orderId).map fun po => f (pol, po)).getD 0).sum := by
  rw [orderedLines, sum_join]
  congr 1
  refine List.map_congr_left fun pol _ => ?_
  rw [filter_eq_find? db.purchaseOrders.nodup]
  show _ = ((db.purchaseOrders.rows.find? fun po => po.id = pol.orderId).map _).getD 0
  cases db.purchaseOrders.rows.find? fun po => po.id = pol.orderId <;> simp

/-- What both queries sum up to see what is in transit. -/
theorem sum_openQty (db : Db) (id : ID) :
    (((orderedLines db).filter fun (pol, po) =>
      po.status = PURCHASE_ORDER_APPROVED ∧ pol.itemId = id ∧ pol.quantity > pol.receivedQty).map
        openQty).sum = db.inTransit id := by
  rw [sum_filter, sum_orderedLines, Db.inTransit, Table.tally, sum_filter]
  congr 1
  refine List.map_congr_left fun pol _ => ?_
  cases db.purchaseOrders.get? pol.orderId with
  | none => simp
  | some po =>
    by_cases hpo : po.status = 3
    · simp [hpo, PURCHASE_ORDER_APPROVED, openQty]
    · simp [hpo, PURCHASE_ORDER_APPROVED]

theorem coalesce_transitSubquery (db : Db) (id : ID) :
    coalesce (transitSubquery db id) = db.inTransit id := by
  rw [transitSubquery, coalesce_sum?_some, sum_openQty]

/-- The CTE groups what the subquery selects. -/
theorem coalesce_transit (db : Db) (id : ID) :
    coalesce (((transit db).find? fun t => t.1 = id).map Prod.snd) = db.inTransit id := by
  have hgroup : ((orderedLines db).filter fun (pol, po) =>
        decide (po.status = PURCHASE_ORDER_APPROVED ∧ pol.quantity > pol.receivedQty)).filter
          (fun (pol, _) => pol.itemId = id) =
      (orderedLines db).filter fun (pol, po) => decide
        (po.status = PURCHASE_ORDER_APPROVED ∧ pol.itemId = id ∧
          pol.quantity > pol.receivedQty) := by
    rw [List.filter_filter]
    congr 1
    funext ⟨pol, po⟩
    grind
  rw [transit, find?_aggregate, ← sum_openQty, ← hgroup]
  split
  · rename_i hnil
    rw [hnil]
    rfl
  · exact coalesce_sum?_some openQty _

theorem coalesce_stock (db : Db) (id : ID) :
    coalesce (((stock db).find? fun s => s.1 = id).map Prod.snd) = db.total id := by
  rw [stock, find?_aggregate, Db.total, Table.tally]
  split
  · rename_i hnil
    rw [hnil]
    rfl
  · exact coalesce_sum?_some Inventory.quantity _

/-- The gross demand of an item, as the left join finds it. -/
def grossDemand? (db : Db) (id : ID) : Option ℤ :=
  ((demand db).find? fun d => d.1 = id).bind Prod.snd

theorem grossDemand?_eq (db : Db) (material : ID) :
    grossDemand? db material = sum? (fun p => some (explodedQty p))
      (((explodedLines db).filter isDemand).filter fun (_, bi) => bi.itemId = material) := by
  have hfind := find?_aggregate
    (fun p : ((SalesOrderLine × SalesOrder) × Bom) × BomItem => p.2.itemId)
    (sum? fun p => some (explodedQty p)) ((explodedLines db).filter isDemand) material
  have hjoin : ∀ x : Option (ID × Option ℤ), x.bind Prod.snd = (x.map Prod.snd).join := by
    rintro (_ | _) <;> rfl
  rw [grossDemand?, hjoin]
  refine (congrArg Option.join hfind).trans ?_
  split
  · rename_i hnil
    rw [hnil]
    rfl
  · rfl

/-- What one order line adds to the demand of a material when its order is there. -/
theorem sum_boms (db : Db) (material : ID) (sol : SalesOrderLine) :
    ((db.boms.rows.filter fun b => b.itemId = sol.itemId).map fun b =>
      ((db.bomItems.rows.filter fun bi => bi.bomId = b.id).map fun bi =>
        if bi.itemId = material ∧ sol.closed = false ∧ b.status = BOM_RELEASED then
          sol.quantity * bi.quantity else 0).sum).sum =
    if sol.closed = false then db.exploded material sol else 0 := by
  cases sol.closed with
  | true => simp
  | false =>
    have hrest : ∀ b : Bom, ((db.bomItems.rows.filter fun bi => bi.bomId = b.id).map fun bi =>
        if bi.itemId = material ∧ b.status = BOM_RELEASED then sol.quantity * bi.quantity
        else 0).sum =
        if b.status = 1 then sol.quantity * db.perUnit b material else 0 := by
      intro b
      by_cases hb : b.status = 1
      · rw [if_pos hb, Db.perUnit, Table.tally, ← List.sum_map_mul_left, sum_filter, sum_filter]
        congr 1
        refine List.map_congr_left fun bi _ => ?_
        grind [BOM_RELEASED]
      · simp [hb, BOM_RELEASED]
    simp only [true_and, if_true, hrest]
    rw [Db.exploded, Db.released, sum_filter, sum_filter]
    congr 1
    refine List.map_congr_left fun b _ => ?_
    grind

/-- The gross demand is what the open order lines explode to, once for each released BOM. -/
theorem coalesce_grossDemand
    (horders : ∀ l ∈ db.salesOrderLines.rows, db.salesOrders.has l.orderId = true)
    (material : ID) :
    coalesce (grossDemand? db material) = (db.openLines.map (db.exploded material)).sum := by
  rw [grossDemand?_eq, coalesce_sum?_some, List.filter_filter, sum_filter, explodedLines,
    sum_join, sum_join, sum_join, Db.openLines, sum_filter]
  congr 1
  refine List.map_congr_left fun sol hsol => ?_
  obtain ⟨so, hso⟩ := Table.has_iff.mp (horders sol hsol)
  have hone : db.salesOrders.rows.filter (fun so => so.id = sol.orderId) = [so] := by
    rw [filter_eq_find? db.salesOrders.nodup]
    exact congrArg Option.toList hso
  rw [hone, List.map_singleton, List.sum_singleton]
  refine Eq.trans ?_ ((sum_boms db material sol).trans ?_)
  · congr 2
    funext b
    congr 2
    funext bi
    grind [isDemand, explodedQty]
  · cases sol.closed <;> simp

/-! ## The rows of the two queries -/

/-- What `stock_and_transit` reports of an item. -/
def aggregateOf (db : Db) (i : ItemRow) : ItemStockAggregate where
  itemId := i.id
  itemCode := i.code
  itemName := i.name
  itemType := i.itemType
  safetyStock := i.safetyStock
  reorderPoint := i.reorderPoint
  currentStock := db.total i.id
  inTransitQty := db.inTransit i.id

theorem stockAggregate_eq (db : Db) (i : ItemRow) :
    stockAggregate db
      (groupColumns i, matched (fun i iv => iv.itemId = i.id) db.inventories.rows i) =
        aggregateOf db i := by
  have hstock := coalesce_sum? (fun p : ItemRow × Option Inventory => p.2.bind fun iv =>
    some iv.quantity) (matched (fun i iv => iv.itemId = i.id) db.inventories.rows i)
  rw [filterMap_matched, List.filterMap_eq_map'] at hstock
  simp only [stockAggregate, groupColumns, aggregateOf, ItemStockAggregate.mk.injEq, true_and]
  exact ⟨hstock, coalesce_transitSubquery db i.id⟩

/-- The rows are those of the active items. -/
theorem mem_stockAndTransit {a : ItemStockAggregate} :
    a ∈ stockAndTransit db ↔
      ∃ i ∈ db.items.rows, i.isActive = true ∧ a = aggregateOf db i := by
  have hgroup : ∀ i ∈ db.items.rows, i.isActive = true →
      ((stocked db).filter fun p => p.1.isActive).filter
          (fun p => groupColumns p.1 = groupColumns i) =
        matched (fun i iv => iv.itemId = i.id) db.inventories.rows i := by
    intro i hi hactive
    rw [stocked, filter_fst_leftJoin]
    refine filter_leftJoin ?_ _ _ (List.mem_filter.mpr ⟨hi, hactive⟩)
    exact (nodup_groupColumns db).sublist (List.filter_sublist.map groupColumns)
  constructor
  · intro h
    obtain ⟨⟨k, rows⟩, hmem, rfl⟩ := List.mem_map.mp h
    obtain ⟨⟨⟨i, iv⟩, hp, rfl⟩, rfl⟩ := mem_groupBy.mp hmem
    obtain ⟨hp, hactive⟩ := List.mem_filter.mp hp
    obtain ⟨i', hi, hm⟩ := List.mem_flatMap.mp hp
    obtain rfl := fst_of_mem_matched hm
    refine ⟨i, hi, hactive, ?_⟩
    rw [hgroup i hi hactive, stockAggregate_eq]
  · rintro ⟨i, hi, hactive, rfl⟩
    obtain ⟨p, hp⟩ := List.exists_mem_of_ne_nil _
      (matched_ne_nil (fun (i : ItemRow) (iv : Inventory) => iv.itemId = i.id)
        db.inventories.rows i)
    have hfst := fst_of_mem_matched hp
    refine List.mem_map.mpr ⟨(groupColumns i, _), mem_groupBy.mpr ⟨⟨p, ?_, ?_⟩, rfl⟩, ?_⟩
    · refine List.mem_filter.mpr ⟨List.mem_flatMap.mpr ⟨i, hi, hp⟩, ?_⟩
      rw [hfst]
      exact hactive
    · exact congrArg groupColumns hfst
    · rw [hgroup i hi hactive, stockAggregate_eq]

/-- The columns that the left joins find for an item. -/
def joined (db : Db) (i : ItemRow) : MrpRow :=
  (((i, (demand db).find? fun d => d.1 = i.id), (stock db).find? fun s => s.1 = i.id),
    (transit db).find? fun t => t.1 = i.id)

/-- No left join repeats an item. -/
theorem mrpRows_eq (db : Db) : mrpRows db = db.items.rows.map (joined db) := by
  have hd : ((demand db).map Prod.fst).Nodup := nodup_aggregate _ _ _
  have hs : ((stock db).map Prod.fst).Nodup := nodup_aggregate _ _ _
  have ht : ((transit db).map Prod.fst).Nodup := nodup_aggregate _ _ _
  rw [mrpRows, leftJoin_of_nodup (fun p : (ItemRow × Option (ID × Option ℤ)) × Option (ID × ℤ) =>
      p.1.1.id) ht, leftJoin_of_nodup (fun p : ItemRow × Option (ID × Option ℤ) => p.1.id) hs,
    leftJoin_of_nodup (fun i : ItemRow => i.id) hd, List.map_map, List.map_map]
  rfl

/-- The rows are those of the items that have a demand or not enough. -/
theorem mem_mrpCalculate {ar : Arith} {x : MrpItem} :
    x ∈ mrpCalculate ar db ↔ ∃ i ∈ db.items.rows,
      ((grossDemand? db i.id).isSome = true ∨ i.safetyStock > db.total i.id + db.inTransit i.id) ∧
      x = mrpItem ar (joined db i) := by
  have hlisted : ∀ i, isListed (joined db i) = true ↔
      ((grossDemand? db i.id).isSome = true ∨
        i.safetyStock > db.total i.id + db.inTransit i.id) := by
    intro i
    simp only [isListed, joined, coalesce_stock, coalesce_transit, Bool.or_eq_true,
      decide_eq_true_eq]
    rfl
  rw [mrpCalculate, List.mem_insertionSort, mrpRows_eq, List.filter_map, List.map_map]
  constructor
  · intro h
    obtain ⟨i, hi, rfl⟩ := List.mem_map.mp h
    obtain ⟨hi, hl⟩ := List.mem_filter.mp hi
    exact ⟨i, hi, (hlisted i).mp hl, rfl⟩
  · rintro ⟨i, hi, hl, rfl⟩
    exact List.mem_map.mpr ⟨i, List.mem_filter.mpr ⟨hi, (hlisted i).mpr hl⟩, rfl⟩

theorem mrpItem_joined (ar : Arith) (i : ItemRow) :
    mrpItem ar (joined db i) = {
      itemId := i.id
      itemCode := i.code
      itemName := i.name
      grossDemand := coalesce (grossDemand? db i.id)
      currentStock := db.total i.id
      inTransitQty := db.inTransit i.id
      netDemand :=
        max (coalesce (grossDemand? db i.id) - db.total i.id - db.inTransit i.id) 0
      safetyStock := i.safetyStock
      suggestedOrderQty := ar.add
        (max (coalesce (grossDemand? db i.id) - db.total i.id - db.inTransit i.id) 0)
        i.safetyStock } := by
  simp only [mrpItem, joined, coalesce_stock, coalesce_transit]
  rfl

/-- The two queries agree on every item that both report. -/
theorem planning_views_agree (ar : Arith) (db : Db) {a : ItemStockAggregate} {x : MrpItem}
    (ha : a ∈ stockAndTransit db) (hx : x ∈ mrpCalculate ar db) (hid : a.itemId = x.itemId) :
    a.currentStock = x.currentStock ∧ a.inTransitQty = x.inTransitQty := by
  obtain ⟨i, hi, -, rfl⟩ := mem_stockAndTransit.mp ha
  obtain ⟨j, hj, -, rfl⟩ := mem_mrpCalculate.mp hx
  rw [mrpItem_joined] at hid ⊢
  have hid : i.id = j.id := hid
  show db.total i.id = db.total j.id ∧ db.inTransit i.id = db.inTransit j.id
  rw [hid]
  exact ⟨rfl, rfl⟩

/-- One item in two warehouses, with one order line open, one over-received and one in draft. -/
def planned : Db :=
  { Db.empty with
    items := ⟨[⟨1, "RAW001", "Plastic", none, 1, "kg", none, none, true, 0, 500, 1⟩], by decide⟩
    inventories := ⟨[⟨1, 1, 1, 50, 0, 1⟩, ⟨2, 1, 2, -20, 0, 1⟩], by decide⟩
    purchaseOrders := ⟨[⟨1, 1, 3, 0⟩, ⟨2, 1, 0, 0⟩], by decide⟩
    purchaseOrderLines := ⟨[
      { id := 1, orderId := 1, itemId := 1, quantity := 9, receivedQty := 2
        returnedQty := 0, closed := false },
      { id := 2, orderId := 1, itemId := 1, quantity := 5, receivedQty := 8
        returnedQty := 0, closed := true },
      { id := 3, orderId := 2, itemId := 1, quantity := 4, receivedQty := 0
        returnedQty := 0, closed := false }], by decide⟩ }

theorem planning_views_agree_planned :
    ∃ a ∈ stockAndTransit planned, ∃ x ∈ mrpCalculate .i64 planned, a.itemId = x.itemId ∧
      a.currentStock = x.currentStock ∧ a.inTransitQty = x.inTransitQty ∧
      x.currentStock = 30 ∧ x.inTransitQty = 7 := by
  have ha : (⟨1, "RAW001", "Plastic", 1, 500, 0, 30, 7⟩ : ItemStockAggregate) ∈
      stockAndTransit planned := by decide +kernel
  have hx : (⟨1, "RAW001", "Plastic", 0, 30, 7, 0, 500, 500⟩ : MrpItem) ∈
      mrpCalculate .i64 planned := by decide +kernel
  obtain ⟨hstock, htransit⟩ := planning_views_agree .i64 planned ha hx rfl
  exact ⟨_, ha, _, hx, rfl, hstock, htransit, rfl, rfl⟩

/-- An item without a gross demand is no material of an open order line. -/
theorem grossDemand?_eq_none {material : ID} :
    grossDemand? db material = none ↔
      ∀ p ∈ explodedLines db, isDemand p = true → p.2.itemId ≠ material := by
  rw [grossDemand?_eq, ← Option.not_isSome_iff_eq_none, isSome_sum?_some, not_not,
    List.filter_eq_nil_iff]
  simp only [List.mem_filter, decide_eq_true_eq, and_imp]

end PlanningPort

end Slab
