import Slab.Erp.AverageCost
import Slab.Sql.Relation
import Slab.Txn.Sole

/-!
# The current cost of an item

Costs are created by hand and by purchase receipts. Both take `is_current` from the cost that has
it and insert a new one, on rows that they have not locked, and nothing in the table keeps a second
current cost out.

## Main definitions

- `ItemCostRepository.create`, `ItemCostCreate.execute` — costs by hand
- `WorkOrderMaterialCostGet` — the report that joins the current cost list
- `Db.SingleCurrent` — at most one current cost for each item and type
- `FindsNoCost` — the condition on the statements that insert a current cost

## Main results

- `report_lists_once` — the report has each material once
- `single_current` — both hold along every run whose inserts find no current cost
-/

namespace Slab

open Txn

/-! ## Costs by hand -/

namespace ItemCostRepository

/-- `WHERE item_id = $1 AND cost_type = $2 AND is_current = TRUE`. -/
def isCurrentOf (item : ID) (costType : ℤ) (r : ItemCost) : Bool :=
  r.itemId = item && r.costType = costType && r.isCurrent

/-- `SET is_current = FALSE` for a row that a statement has found. -/
def retireRow (id : ID) : Handler Unit :=
  Prog.update (fun db => lockRow .itemCosts id (db.itemCosts.has id)) fun db =>
    { db with itemCosts := db.itemCosts.modify id ItemCost.retire ItemCost.retire_id }

/-- `UPDATE item_costs SET is_current = FALSE WHERE …`. A statement that has to wait for a row goes
on with the snapshot that it began with, so finding the rows and setting them are two steps. -/
def retireCurrent (item : ID) (costType : ℤ) : Handler Unit := do
  let rows ← Prog.select fun db => db.itemCosts.rows.filter (isCurrentOf item costType)
  Prog.forEach rows fun r => retireRow r.id

/-- The primary key, and the reference to the item. -/
def insertRefusal (cost : ItemCost) (db : Db) : Option AppError :=
  (unique (db.itemCosts.has cost.id)).or (references (db.items.has cost.itemId))

def create (cost : ItemCost) : Handler Unit := do
  if cost.isCurrent then
    retireCurrent cost.itemId cost.costType
  Prog.insert [.row .itemCosts cost.id] (insertRefusal cost) fun db =>
    { db with itemCosts := db.itemCosts.insert cost }

end ItemCostRepository

namespace ItemCostCreate

structure CreateCostRequest where
  costType : CostType
  unitCost : ℤ
  currency : Option String
  isCurrent : Option Bool
  remark : Option String
deriving DecidableEq

structure CreateCostResponse where
  id : ID
deriving DecidableEq

/-- The row that a request makes. -/
def newCost (id item : ID) (effectiveAt : Timestamp) (request : CreateCostRequest) : ItemCost where
  id := id
  itemId := item
  costType := request.costType.toI16
  unitCost := request.unitCost
  currency := request.currency.getD "CNY"
  effectiveAt := effectiveAt
  isCurrent := request.isCurrent.getD true
  remark := request.remark

def execute (ctx : Operator) (item : ID) (request : CreateCostRequest) :
    Handler CreateCostResponse := do
  let id ← ask .newId
  let effectiveAt ← ask .utcNow
  let cost := newCost id item effectiveAt request
  ItemCostRepository.create cost
  AuditService.recordCreate "item_cost" id ctx (.itemCost cost)
  pure { id := id }

end ItemCostCreate

/-! ## The report -/

namespace WorkOrderMaterialCostGet

structure MaterialCostLine where
  itemId : ID
  itemCode : String
  itemName : String
  pickedQty : ℤ
  unitCost : ℤ
  lineCost : ℤ
deriving DecidableEq

structure MaterialCostResponse where
  workOrderId : ID
  lines : List MaterialCostLine
  totalMaterialCost : ℤ
deriving DecidableEq

/-- `ON ic.item_id = wm.item_id AND ic.cost_type = 10 AND ic.is_current = TRUE`. -/
def costOf (p : WorkOrderMaterial × ItemRow) (ic : ItemCost) : Bool :=
  ic.itemId = p.1.itemId && ic.costType = 10 && ic.isCurrent

/-- The materials of an order with their items and costs. -/
def rows (id : ID) (db : Db) : List ((WorkOrderMaterial × ItemRow) × Option ItemCost) :=
  (Relation.leftJoin costOf
    (Relation.join (fun wm i => i.id = wm.itemId) db.workOrderMaterials.rows db.items.rows)
    db.itemCosts.rows).filter fun r => r.1.1.workOrderId = id

variable (ar : Arith)

def line (r : (WorkOrderMaterial × ItemRow) × Option ItemCost) : MaterialCostLine :=
  let unitCost := Relation.coalesce (r.2.map ItemCost.unitCost)
  let pickedQty := r.1.1.pickedQty.getD 0
  { itemId := r.1.1.itemId
    itemCode := r.1.2.code
    itemName := r.1.2.name
    pickedQty := pickedQty
    unitCost := unitCost
    lineCost := ar.mul pickedQty unitCost }

def execute (id : ID) : Handler MaterialCostResponse := do
  let found ← Prog.select fun db => db.workOrders.get? id
  let _ ← Prog.orFail found (.production .notFound)
  let found ← Prog.select (rows id)
  let lines := found.map (line ar)
  pure {
    workOrderId := id
    lines := lines
    totalMaterialCost := (lines.map MaterialCostLine.lineCost).foldl ar.add 0 }

end WorkOrderMaterialCostGet

/-! ## One current cost -/

/-- The current costs of an item and type. -/
def Db.currentCosts (db : Db) (item : ID) (costType : ℤ) : List ItemCost :=
  db.itemCosts.rows.filter (ItemCostRepository.isCurrentOf item costType)

/-- At most one current cost for each item and type. -/
def Db.SingleCurrent (db : Db) : Prop :=
  ∀ item costType, (db.currentCosts item costType).length ≤ 1

/-- The row is the current cost of an item and type. -/
def IsCurrent (item : ID) (costType : ℤ) (r : ItemCost) : Prop :=
  ItemCostRepository.isCurrentOf item costType r = true

theorem retire_not_current (item : ID) (costType : ℤ) (r : ItemCost) :
    ¬ IsCurrent item costType r.retire := by
  simp [IsCurrent, ItemCostRepository.isCurrentOf, ItemCost.retire]

theorem length_currentCosts_le_one {db : Db} {item : ID} {costType : ℤ} :
    (db.currentCosts item costType).length ≤ 1 ↔
      Sole.AtMostOne Db.itemCosts (IsCurrent item costType) db := by
  have hmem : ∀ r, r ∈ db.currentCosts item costType ↔
      Sole.Shows Db.itemCosts (IsCurrent item costType) db r := fun r => List.mem_filter
  have hnodup : (db.currentCosts item costType).Nodup :=
    (List.Nodup.of_map _ db.itemCosts.nodup).filter _
  constructor
  · intro hlen r s hr hs
    match hcosts : db.currentCosts item costType, hlen with
    | [], _ =>
      have hr' := (hmem r).mpr hr
      rw [hcosts] at hr'
      cases hr'
    | [x], _ =>
      have hr' := (hmem r).mpr hr
      have hs' := (hmem s).mpr hs
      rw [hcosts, List.mem_singleton] at hr' hs'
      rw [hr', hs']
  · intro hone
    match hcosts : db.currentCosts item costType with
    | [] => exact Nat.zero_le _
    | [x] => exact le_refl _
    | x :: y :: rest =>
      rw [hcosts] at hnodup hmem
      have hxy := hone x y ((hmem x).mp List.mem_cons_self)
        ((hmem y).mp (List.mem_cons_of_mem x List.mem_cons_self))
      exact absurd (hxy ▸ List.mem_cons_self) (List.nodup_cons.mp hnodup).1

theorem singleCurrent_iff {db : Db} : db.SingleCurrent ↔
    ∀ item costType, Sole.AtMostOne Db.itemCosts (IsCurrent item costType) db :=
  forall₂_congr fun _ _ => length_currentCosts_le_one

/-- Where there is one current cost at most, the report has each material of the order once. -/
theorem report_lists_once {db : Db} (h : db.SingleCurrent) (order : ID) :
    (WorkOrderMaterialCostGet.rows order db).map (fun r => r.1.1) =
      db.workOrderMaterials.rows.filter fun wm =>
        db.items.has wm.itemId && wm.workOrderId = order := by
  have hrows : (WorkOrderMaterialCostGet.rows order db).map Prod.fst =
      (Relation.join (fun wm i => i.id = wm.itemId) db.workOrderMaterials.rows
        db.items.rows).filter fun p => p.1.workOrderId = order := by
    have hfilter := Relation.filter_fst_leftJoin
      (fun p : WorkOrderMaterial × ItemRow => decide (p.1.workOrderId = order))
      WorkOrderMaterialCostGet.costOf
      (Relation.join (fun wm i => i.id = wm.itemId) db.workOrderMaterials.rows db.items.rows)
      db.itemCosts.rows
    rw [WorkOrderMaterialCostGet.rows, hfilter]
    exact Relation.map_fst_leftJoin fun p _ => h p.1.itemId 10
  have hjoin := Relation.map_fst_join WorkOrderMaterial.itemId db.items.nodup
    db.workOrderMaterials.rows
  calc (WorkOrderMaterialCostGet.rows order db).map (fun r => r.1.1)
      = ((WorkOrderMaterialCostGet.rows order db).map Prod.fst).map Prod.fst := by
        rw [List.map_map]; rfl
    _ = ((Relation.join (fun wm i => i.id = wm.itemId) db.workOrderMaterials.rows
          db.items.rows).map Prod.fst).filter fun wm => wm.workOrderId = order := by
        rw [hrows, List.filter_map]; rfl
    _ = _ := by
        rw [hjoin, List.filter_filter]
        refine List.filter_congr fun wm _ => Bool.and_comm _ _

/-! ## Runs -/

/-- A program that changes no cost. -/
structure CostBystander where
  run : Handler Unit
  keeps : run.Preserves Db.itemCosts

/-- The requests that make costs, and the others. -/
inductive CostRequest where
  | receipt (ctx : Operator) (request : PurchaseReceiptCreate.CreateReceiptRequest)
  | create (ctx : Operator) (item : ID) (request : ItemCostCreate.CreateCostRequest)
  | other (program : CostBystander)

def CostRequest.run (ar : Arith) : CostRequest → Handler Unit
  | receipt ctx request => do
    let _ ← PurchaseReceiptCreate.execute ar ctx request
    pure ()
  | create ctx item request => do
    let _ ← ItemCostCreate.execute ctx item request
    pure ()
  | other program => program.run

section Careful

variable {item : ID} {costType : ℤ}

/-- The statements of a program make no current cost of the item and type, or insert one. -/
abbrev CarefulCost (item : ID) (costType : ℤ) {α : Type} (program : Handler α) : Prop :=
  Sole.Careful Db.itemCosts (IsCurrent item costType) program

theorem retireRow_careful (id : ID) :
    CarefulCost item costType (ItemCostRepository.retireRow id) :=
  Sole.careful_update ItemCost.retire_id (fun _ => rfl) (retire_not_current item costType)

theorem create_careful (cost : ItemCost) :
    CarefulCost item costType (ItemCostRepository.create cost) := by
  have hinsert : CarefulCost item costType
      (Prog.insert [.row .itemCosts cost.id] (ItemCostRepository.insertRefusal cost) fun db =>
        { db with itemCosts := db.itemCosts.insert cost } : Handler Unit) :=
    Sole.careful_insert (r := cost) (fun _ => rfl) fun v h =>
      unique_eq_none.mp (Option.or_eq_none_iff.mp h).1
  unfold ItemCostRepository.create
  split
  · refine Sole.Careful.bind ?_ fun _ => hinsert
    exact Sole.Careful.bind (.of_preserves (Prog.preserves_select _)) fun rows =>
      Sole.Careful.forEach fun r => retireRow_careful r.id
  · exact hinsert

theorem itemCostCreate_careful (ctx : Operator) (item' : ID)
    (request : ItemCostCreate.CreateCostRequest) :
    CarefulCost item costType (ItemCostCreate.execute ctx item' request) := by
  refine Sole.Careful.bind (.of_preserves (Prog.preserves_ask _)) fun id => ?_
  refine Sole.Careful.bind (.of_preserves (Prog.preserves_ask _)) fun effectiveAt => ?_
  refine (create_careful _).bind fun _ => .of_preserves ?_
  exact ((AuditService.record_preserves _ _ _ _ _ _).factor (by intro _; rfl)).bind fun _ =>
    Prog.preserves_ret _

theorem recalc_careful (ar : Arith) (item' : ID) (q c : ℤ) :
    CarefulCost item costType (CostCalculator.recalcWeightedAverage ar item' q c) := by
  refine Sole.Careful.bind (.of_preserves (Prog.preserves_select _)) fun cur => ?_
  refine Sole.Careful.bind (.of_preserves (Prog.preserves_select _)) fun total => ?_
  refine Sole.Careful.bind (.of_preserves (Prog.preserves_ensure _ _)) fun _ => ?_
  refine Sole.Careful.bind (.of_preserves (Prog.preserves_orFail _ _)) fun newAvg => ?_
  have hinsert : ∀ id time, CarefulCost item costType
      (insertRow .itemCosts id (fun db => db.itemCosts.has id) fun db =>
        { db with itemCosts := db.itemCosts.insert (CostCalculator.newCost id item' newAvg time) }) :=
    fun id time => Sole.careful_insert (r := CostCalculator.newCost id item' newAvg time)
      (fun _ => rfl) fun _ h => unique_eq_none.mp h
  have hrest : CarefulCost item costType (do
      let id ← ask .newId
      let time ← ask .utcNow
      insertRow .itemCosts id (fun db => db.itemCosts.has id) fun db =>
        { db with itemCosts := db.itemCosts.insert (CostCalculator.newCost id item' newAvg time) }
      pure newAvg) :=
    Sole.Careful.bind (.of_preserves (Prog.preserves_ask _)) fun id =>
      Sole.Careful.bind (.of_preserves (Prog.preserves_ask _)) fun time =>
        (hinsert id time).bind fun _ => trivial
  cases cur with
  | none => exact hrest
  | some r =>
    refine Sole.Careful.bind ?_ fun _ => hrest
    exact Sole.careful_update ItemCost.retire_id (fun _ => rfl)
      (retire_not_current item costType)

theorem receiveLine_careful (ar : Arith) (orderId receiptId : ID)
    (line : PurchaseReceiptCreate.CreateReceiptLine) :
    CarefulCost item costType (PurchaseReceiptCreate.receiveLine ar orderId receiptId line) := by
  refine Sole.Careful.bind (.of_preserves (Prog.preserves_ask _)) fun lineId => ?_
  refine Sole.Careful.bind (.of_preserves (Prog.preserves_selectForUpdate _ _)) fun found => ?_
  refine Sole.Careful.bind (.of_preserves (Prog.preserves_orFail _ _)) fun ol => ?_
  refine Sole.Careful.bind (.of_preserves (Prog.preserves_ensure _ _)) fun _ => ?_
  refine Sole.Careful.bind (.of_preserves (Prog.preserves_insert fun _ => rfl)) fun _ => ?_
  refine Sole.Careful.bind (.of_preserves (Prog.preserves_update fun _ => rfl)) fun _ => ?_
  refine Sole.Careful.bind (.of_preserves
    ((InventoryLedger.receive_preserves _).factor (by intro _; rfl))) fun _ => ?_
  exact (recalc_careful ar _ _ _).bind fun _ => trivial

theorem createHeader_keeps_costs (request : PurchaseReceiptCreate.CreateReceiptRequest) :
    (PurchaseReceiptCreate.createHeader request).Preserves Db.itemCosts := by
  refine (Prog.preserves_selectForUpdate _ _).bind fun found => ?_
  refine (Prog.preserves_orFail _ _).bind fun order => ?_
  refine (Prog.preserves_ensure _ _).bind fun _ => ?_
  refine (DocNumberer.nextNumber_preserves _ _ _).bind fun code => ?_
  refine (PurchaseReceiptCreate.receiptDateOrToday_preserves _ _).bind fun receiptDate => ?_
  refine (Prog.preserves_ask _).bind fun receiptId => ?_
  exact (Prog.preserves_insert (by intro _; rfl)).bind fun _ => Prog.preserves_ret _

theorem receipt_careful (ar : Arith) (ctx : Operator)
    (request : PurchaseReceiptCreate.CreateReceiptRequest) :
    CarefulCost item costType (PurchaseReceiptCreate.execute ar ctx request) := by
  refine Sole.Careful.bind (.of_preserves (createHeader_keeps_costs request)) fun response => ?_
  refine (Sole.Careful.forEach fun line => receiveLine_careful ar _ _ line).bind fun _ => ?_
  refine Sole.Careful.bind (.of_preserves
    ((PurchaseReceiptCreate.recordHeader_preserves ctx _).factor (by intro _; rfl))) fun _ => ?_
  exact trivial

theorem CostRequest.run_careful (ar : Arith) (r : CostRequest) :
    CarefulCost item costType (r.run ar) := by
  cases r with
  | receipt ctx request => exact (receipt_careful ar ctx request).bind fun _ => trivial
  | create ctx item' request => exact (itemCostCreate_careful ctx item' request).bind fun _ => trivial
  | other program => exact .of_preserves program.keeps

end Careful

abbrev CostConfig := Config Db Key Answer AppError Unit CostRequest

/-- Whenever a statement inserts a current cost, its transaction sees none of that item and type,
and no other open transaction has made one. -/
def FindsNoCost (c : CostConfig) (a : Action CostRequest Answer) : Prop :=
  ∀ item costType, Sole.FindsNone Db.itemCosts (IsCurrent item costType) c a

/-- Along every run in which every insert of a current cost finds none: each item has one current
cost of each type at most, and the report of a work order lists each of its materials once. -/
theorem single_current {ar : Arith} {initial : Db} (hinit : initial.SingleCurrent) {c : CostConfig}
    (hr : Run (CostRequest.run ar) FindsNoCost (Config.init initial) c) :
    c.db.SingleCurrent ∧ ∀ order,
      (WorkOrderMaterialCostGet.rows order c.db).map (fun r => r.1.1) =
        c.db.workOrderMaterials.rows.filter fun wm =>
          c.db.items.has wm.itemId && wm.workOrderId = order := by
  have hsingle : c.db.SingleCurrent := singleCurrent_iff.mpr fun item costType =>
    Sole.atMostOne_of_run (fun r => r.run_careful ar) (fun _ _ hok => hok item costType)
      (singleCurrent_iff.mp hinit item costType) hr
  exact ⟨hsingle, report_lists_once hsingle⟩

/-! ## Alone, and at the same time -/

/-- The test that the statement of an action which inserts a current cost finds none, and that no
other transaction is open. -/
def findsNoCost (c : CostConfig) (a : Action CostRequest Answer) : Bool :=
  match a with
  | .step i _ =>
    match c.session? i with
    | none => true
    | some s =>
      match s.prog with
      | .stmt lock _ write _ =>
        let view := s.writes c.db
        match lock.acquire view (c.busy i) with
        | none => true
        | some ks => (write view ks view).itemCosts.rows.all fun r =>
            !r.isCurrent || view.itemCosts.rows.contains r ||
              (view.currentCosts r.itemId r.costType).isEmpty &&
                (List.range c.sessions.length).all fun j => j = i || (c.session? j).isNone
      | _ => true
  | _ => true

theorem findsNoCost_of_test {c : CostConfig} {a : Action CostRequest Answer}
    (h : findsNoCost c a = true) : FindsNoCost c a := by
  rintro item costType i ans s lock olds write next ks rfl hs hprog hl ⟨r, ⟨hr, hcur⟩, hnew⟩
  simp only [findsNoCost, hs, hprog, hl, List.all_eq_true] at h
  have hkind : r.itemId = item ∧ r.costType = costType ∧ r.isCurrent = true := by
    simpa [IsCurrent, ItemCostRepository.isCurrentOf, and_assoc] using hcur
  obtain ⟨rfl, rfl, hcurrent⟩ := hkind
  have hfresh : (s.writes c.db).itemCosts.rows.contains r = false := by
    rw [Bool.eq_false_iff]
    exact fun hin => hnew ⟨List.contains_iff_mem.mp hin, hcur⟩
  have htest := h r hr
  simp only [hcurrent, hfresh, Bool.not_true, Bool.false_or, Bool.and_eq_true,
    List.all_eq_true, List.mem_range, Bool.or_eq_true, decide_eq_true_eq] at htest
  obtain ⟨hnone, halone⟩ := htest
  refine ⟨fun r' hr' => ?_, fun j t hj ht => ?_⟩
  · have hin : r' ∈ (s.writes c.db).currentCosts r.itemId r.costType :=
      List.mem_filter.mpr ⟨hr'.1, hr'.2⟩
    rw [List.isEmpty_iff.mp hnone] at hin
    cases hin
  · rcases halone j (Config.session?_lt ht) with heq | hnone
    · exact absurd heq hj
    · rw [ht] at hnone
      cases hnone

/-- Steps of session `i`, with ids from `base` on. -/
def stepsOf (i : ℕ) (base : ℤ) (count : ℕ) : List (Action CostRequest Answer) :=
  (List.range count).map fun n => .step i (numbered base n)

/-- An approved order of ten pieces of an item that a work order needs. -/
def neededItem : Db :=
  { tenOrdered with
    items := Table.empty.insert ⟨7, "RAW-000007", "steel", none, 1, "kg", none, none, true, 0, 0, 1⟩
    workOrderMaterials := Table.empty.insert ⟨8, 9, 7, 4, some 4⟩ }

/-- A cost by hand. -/
def byHand (unitCost : ℤ) : CostRequest :=
  .create ⟨1, none, none⟩ 7 ⟨.weightedAverage, unitCost, none, none, none⟩

/-- Two lines of it are received, and then its average is set by hand. -/
def oneByOne : List (Action CostRequest Answer) :=
  .start (.receipt ⟨1, none, none⟩
    ⟨1, none, none, [⟨2, 7, 1, 3, none, 100⟩, ⟨2, 7, 1, 2, none, 1001⟩]⟩) :: stepsOf 0 100 39 ++
  .start (byHand 500) :: stepsOf 1 200 8

theorem single_current_oneByOne :
    ∃ c, Run (CostRequest.run .i64) FindsNoCost (Config.init neededItem : CostConfig) c ∧
      c.db.itemCosts.rows.length = 3 ∧ (c.db.currentCosts 7 10).map ItemCost.unitCost = [500] ∧
      c.db.SingleCurrent ∧ ∀ order,
        (WorkOrderMaterialCostGet.rows order c.db).map (fun r => r.1.1) =
          c.db.workOrderMaterials.rows.filter fun wm =>
            c.db.items.has wm.itemId && wm.workOrderId = order := by
  have hplay : ((Config.init neededItem : CostConfig).play (CostRequest.run .i64) findsNoCost
      oneByOne).map (fun c => (c.db.itemCosts.rows.length,
        (c.db.currentCosts 7 10).map ItemCost.unitCost)) = some (3, [500]) := by
    decide +kernel
  obtain ⟨c, hc, hfacts⟩ := Option.map_eq_some_iff.mp hplay
  obtain ⟨hlength, hcosts⟩ := Prod.mk.inj hfacts
  have hrun : Run (CostRequest.run .i64) FindsNoCost (Config.init neededItem : CostConfig) c :=
    Run.of_play (fun _ _ => findsNoCost_of_test) .refl hc
  exact ⟨c, hrun, hlength, hcosts, single_current (fun _ _ => Nat.zero_le _) hrun⟩

/-- Two costs are created by hand at the same time: the second begins after the first has looked
for a cost to take the flag from, and both insert. -/
def bothAtOnce : List (Action CostRequest Answer) :=
  .start (byHand 500) :: stepsOf 0 100 3 ++ .start (byHand 600) :: stepsOf 1 200 7 ++
  stepsOf 0 100 4

/-- The item has two current averages, and the report lists its material twice. -/
theorem two_current :
    ∃ c, Run (CostRequest.run .i64) (fun _ _ => True) (Config.init neededItem : CostConfig) c ∧
      neededItem.SingleCurrent ∧ ¬ c.db.SingleCurrent ∧
      (WorkOrderMaterialCostGet.rows 9 c.db).length = 2 ∧
      c.db.workOrderMaterials.rows.length = 1 := by
  have hplay : ((Config.init neededItem : CostConfig).play (CostRequest.run .i64)
      (fun _ _ => true) bothAtOnce).map (fun c => ((c.db.currentCosts 7 10).length,
        (WorkOrderMaterialCostGet.rows 9 c.db).length, c.db.workOrderMaterials.rows.length)) =
      some (2, 2, 1) := by
    decide +kernel
  obtain ⟨c, hc, hfacts⟩ := Option.map_eq_some_iff.mp hplay
  obtain ⟨hlength, hfacts⟩ := Prod.mk.inj hfacts
  obtain ⟨hreport, hmaterials⟩ := Prod.mk.inj hfacts
  refine ⟨c, Run.of_play (fun _ _ _ => trivial) .refl hc, fun _ _ => Nat.zero_le _, fun h => ?_,
    hreport, hmaterials⟩
  have hle := h 7 10
  rw [hlength] at hle
  exact absurd hle (by decide)

end Slab
