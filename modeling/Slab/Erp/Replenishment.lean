import Slab.Erp.Supply

/-!
# Replenishment

What the planning reports say after a run of orders, receipts and movements of stock, from what
they said before it. What is suggested and then ordered is suggested no more, whatever part of it
has been received; the net demand goes to zero, but the safety stock is suggested once more.

## Main definitions

- `PurchaseSuggestionList`, `ReorderAlertList`, `MrpCalculate` — the planning endpoints
- `Replenished` — the reports before and after

## Main results

- `replenished_of_services` — every run
-/

namespace Slab

open Txn

open PlanningPort (ItemStockAggregate MrpItem stockAndTransit mrpCalculate)

/-! ## Endpoints -/

namespace PurchaseSuggestionList

structure PurchaseSuggestionItem where
  itemId : ID
  itemCode : String
  itemName : String
  currentStock : ℤ
  inTransitQty : ℤ
  safetyStock : ℤ
  suggestedQty : ℤ
deriving DecidableEq

/-- `ItemType::Purchased as i16`. -/
def PURCHASED : ℤ := 3

variable (ar : Arith)

def suggestion (a : ItemStockAggregate) : PurchaseSuggestionItem where
  itemId := a.itemId
  itemCode := a.itemCode
  itemName := a.itemName
  currentStock := a.currentStock
  inTransitQty := a.inTransitQty
  safetyStock := a.safetyStock
  suggestedQty := max (ar.sub (ar.sub a.safetyStock a.currentStock) a.inTransitQty) 0

/-- What is suggested in view of the aggregates, the most urgent first. -/
def items (aggs : List ItemStockAggregate) : List PurchaseSuggestionItem :=
  (((aggs.filter fun a => a.itemType = PURCHASED && a.safetyStock > 0).map
    (suggestion ar)).filter fun x => x.suggestedQty > 0).insertionSort
      fun x y => y.suggestedQty ≤ x.suggestedQty

def execute : Handler (List PurchaseSuggestionItem) := do
  let aggs ← Prog.select stockAndTransit
  pure (items ar aggs)

end PurchaseSuggestionList

namespace ReorderAlertList

structure ReorderAlertItem where
  itemId : ID
  itemCode : String
  itemName : String
  currentStock : ℤ
  reorderPoint : ℤ
  shortage : ℤ
deriving DecidableEq

variable (ar : Arith)

def alert (a : ItemStockAggregate) : ReorderAlertItem where
  itemId := a.itemId
  itemCode := a.itemCode
  itemName := a.itemName
  currentStock := a.currentStock
  reorderPoint := a.reorderPoint
  shortage := max (ar.sub a.reorderPoint a.currentStock) 0

/-- The items below their reorder points, the shortest first. -/
def items (aggs : List ItemStockAggregate) : List ReorderAlertItem :=
  ((aggs.filter fun a => a.reorderPoint > 0 && a.currentStock < a.reorderPoint).map
    (alert ar)).insertionSort fun x y => y.shortage ≤ x.shortage

def execute : Handler (List ReorderAlertItem) := do
  let aggs ← Prog.select stockAndTransit
  pure (items ar aggs)

end ReorderAlertList

namespace MrpCalculate

def execute (ar : Arith) : Handler (List MrpItem) := Prog.select (mrpCalculate ar)

end MrpCalculate

/-! ## What they report -/

section Reports

variable {v w : Db}

/-- The suggestions are for active items that are purchased and fall short of their safety
stocks. -/
theorem PurchaseSuggestionList.execute_runs {found : List PurchaseSuggestionItem}
    (h : (execute .exact).Runs v w (.ok found)) : w = v ∧ ∀ s, s ∈ found ↔
      ∃ i ∈ v.items.rows, i.isActive = true ∧ i.itemType = PURCHASED ∧ 0 < i.safetyStock ∧
        v.position i.id < i.safetyStock ∧ s = {
          itemId := i.id, itemCode := i.code, itemName := i.name, currentStock := v.total i.id
          inTransitQty := v.inTransit i.id, safetyStock := i.safetyStock
          suggestedQty := i.safetyStock - v.position i.id } := by
  simp only [execute, Prog.runs_bind_ok, Prog.runs_select, Prog.pure_eq, Prog.runs_ret] at h
  obtain ⟨_, aggs, ⟨rfl, haggs⟩, rfl, hfound⟩ := h
  obtain rfl := Except.ok.inj haggs
  obtain rfl := Except.ok.inj hfound
  refine ⟨rfl, fun s => ?_⟩
  rw [items, List.mem_insertionSort, List.mem_filter]
  constructor
  · rintro ⟨hmem, hpos⟩
    obtain ⟨a, ha, rfl⟩ := List.mem_map.mp hmem
    obtain ⟨ha, hplanned⟩ := List.mem_filter.mp ha
    obtain ⟨i, hi, hactive, rfl⟩ := PlanningPort.mem_stockAndTransit.mp ha
    obtain ⟨htype, hsafety⟩ := Bool.and_eq_true_iff.mp hplanned
    have htype : i.itemType = PURCHASED := of_decide_eq_true htype
    have hsafety : 0 < i.safetyStock := of_decide_eq_true hsafety
    have hshort : w.position i.id < i.safetyStock := by
      simp only [suggestion, PlanningPort.aggregateOf, Arith.exact_sub, gt_iff_lt,
        decide_eq_true_eq] at hpos
      rw [Db.position]
      omega
    refine ⟨i, hi, hactive, htype, hsafety, hshort, ?_⟩
    simp only [suggestion, PlanningPort.aggregateOf, Arith.exact_sub,
      PurchaseSuggestionItem.mk.injEq, true_and]
    rw [Db.position] at hshort ⊢
    omega
  · rintro ⟨i, hi, hactive, htype, hsafety, hshort, rfl⟩
    rw [Db.position] at hshort ⊢
    refine ⟨List.mem_map.mpr ⟨PlanningPort.aggregateOf w i, List.mem_filter.mpr ⟨?_, ?_⟩, ?_⟩, ?_⟩
    · exact PlanningPort.mem_stockAndTransit.mpr ⟨i, hi, hactive, rfl⟩
    · exact Bool.and_eq_true_iff.mpr ⟨decide_eq_true htype, decide_eq_true hsafety⟩
    · simp only [suggestion, PlanningPort.aggregateOf, Arith.exact_sub,
        PurchaseSuggestionItem.mk.injEq, true_and]
      omega
    · simp only [gt_iff_lt, decide_eq_true_eq]
      omega

/-- An alert is about an item whose stock is below its reorder point. -/
theorem ReorderAlertList.execute_runs {found : List ReorderAlertItem}
    (h : (execute .exact).Runs v w (.ok found)) : w = v ∧ ∀ a ∈ found,
      ∃ i ∈ v.items.rows, i.isActive = true ∧ a.itemId = i.id ∧ a.reorderPoint = i.reorderPoint ∧
        v.total i.id < i.reorderPoint := by
  simp only [execute, Prog.runs_bind_ok, Prog.runs_select, Prog.pure_eq, Prog.runs_ret] at h
  obtain ⟨_, aggs, ⟨rfl, haggs⟩, rfl, hfound⟩ := h
  obtain rfl := Except.ok.inj haggs
  obtain rfl := Except.ok.inj hfound
  refine ⟨rfl, fun a ha => ?_⟩
  rw [items, List.mem_insertionSort] at ha
  obtain ⟨agg, hagg, rfl⟩ := List.mem_map.mp ha
  obtain ⟨hagg, hlow⟩ := List.mem_filter.mp hagg
  obtain ⟨i, hi, hactive, rfl⟩ := PlanningPort.mem_stockAndTransit.mp hagg
  exact ⟨i, hi, hactive, rfl, rfl, of_decide_eq_true (Bool.and_eq_true_iff.mp hlow).2⟩

end Reports

/-! ## Before and after -/

/-- What is reported after a run from `v` to `w`, when the position of each item has changed by
`gain`. -/
structure Replenished (gain : ID → ℤ) (v w : Db) : Prop where
  position : ∀ item, w.position item = v.position item + gain item
  /-- Suggestions are for what is still missing. -/
  suggested : ∀ found, (PurchaseSuggestionList.execute .exact).Runs w w (.ok found) →
    ∀ s ∈ found, s.suggestedQty = s.safetyStock - (v.position s.itemId + gain s.itemId)
  /-- Nothing is suggested any more where all that was suggested has been gained. -/
  settled : ∀ before after, (PurchaseSuggestionList.execute .exact).Runs v v (.ok before) →
    (PurchaseSuggestionList.execute .exact).Runs w w (.ok after) → (∀ item, 0 ≤ gain item) →
    (∀ s ∈ before, s.suggestedQty ≤ gain s.itemId) → after = []
  /-- An item whose net demand has been met is asked for its safety stock once more. -/
  netDemand : ∀ before after, (MrpCalculate.execute .exact).Runs v v (.ok before) →
    (MrpCalculate.execute .exact).Runs w w (.ok after) → ∀ x ∈ before, ∀ y ∈ after,
      y.itemId = x.itemId → y.grossDemand ≤ x.grossDemand → 0 ≤ x.safetyStock →
      x.suggestedOrderQty ≤ gain x.itemId → y.netDemand = 0 ∧ y.suggestedOrderQty = y.safetyStock
  /-- When all has arrived, alerts are for items whose position is too low. -/
  alerts : ∀ found, (ReorderAlertList.execute .exact).Runs w w (.ok found) →
    ∀ a ∈ found, w.inTransit a.itemId = 0 → v.position a.itemId + gain a.itemId < a.reorderPoint

section Replenished

variable {gain : ID → ℤ} {v w : Db}

theorem mrpCalculate_runs {found : List MrpItem}
    (h : (MrpCalculate.execute .exact).Runs v w (.ok found)) {x : MrpItem} (hx : x ∈ found) :
    ∃ i ∈ v.items.rows, x.itemId = i.id ∧ x.safetyStock = i.safetyStock ∧
      x.netDemand = max (x.grossDemand - v.position i.id) 0 ∧
      x.suggestedOrderQty = x.netDemand + i.safetyStock := by
  obtain ⟨-, hfound⟩ := Prog.runs_select.mp h
  obtain rfl := Except.ok.inj hfound
  obtain ⟨i, hi, -, rfl⟩ := PlanningPort.mem_mrpCalculate.mp hx
  rw [PlanningPort.mrpItem_joined]
  refine ⟨i, hi, rfl, rfl, ?_, Arith.exact_add _ _⟩
  rw [Db.position, sub_sub]

/-- An item with less than its safety stock now had less before, or its position has fallen. -/
theorem settled_of_supplies (h : Supplies gain v w)
    {before after : List PurchaseSuggestionList.PurchaseSuggestionItem}
    (hbefore : (PurchaseSuggestionList.execute .exact).Runs v v (.ok before))
    (hafter : (PurchaseSuggestionList.execute .exact).Runs w w (.ok after))
    (hgain : ∀ item, 0 ≤ gain item) (hordered : ∀ s ∈ before, s.suggestedQty ≤ gain s.itemId) :
    after = [] := by
  rw [List.eq_nil_iff_forall_not_mem]
  intro s hs
  obtain ⟨i, hi, hactive, htype, hsafety, hshort, -⟩ :=
    ((PurchaseSuggestionList.execute_runs hafter).2 s).mp hs
  have hposition := h.position i.id
  have hnonneg := hgain i.id
  rw [h.items] at hi
  have hwas := ((PurchaseSuggestionList.execute_runs hbefore).2 _).mpr
    ⟨i, hi, hactive, htype, hsafety, by omega, rfl⟩
  have henough : i.safetyStock - v.position i.id ≤ gain i.id := hordered _ hwas
  omega

theorem replenished (h : Supplies gain v w) : Replenished gain v w where
  position := h.position
  suggested found hfound s hs := by
    obtain ⟨i, -, -, -, -, -, rfl⟩ := ((PurchaseSuggestionList.execute_runs hfound).2 s).mp hs
    rw [h.position]
  settled before after hbefore hafter hgain hordered :=
    settled_of_supplies h hbefore hafter hgain hordered
  netDemand before after hbefore hafter x hx y hy hid hgross hsafety hordered := by
    obtain ⟨i, hi, hxi, hxs, hxn, hxo⟩ := mrpCalculate_runs hbefore hx
    obtain ⟨j, hj, hyj, hys, hyn, hyo⟩ := mrpCalculate_runs hafter hy
    have hij : j.id = i.id := by rw [← hyj, hid, hxi]
    have hposition := h.position i.id
    rw [hij] at hyn
    rw [hxi] at hordered
    omega
  alerts found hfound a ha harrived := by
    obtain ⟨i, -, -, hid, hpoint, hlow⟩ := (ReorderAlertList.execute_runs hfound).2 a ha
    have hposition := h.position i.id
    rw [hid] at harrived ⊢
    rw [Db.position, harrived] at hposition
    omega

end Replenished

/-- Thirty in stock, and five hundred to be kept. -/
def shortOfStock : Db :=
  { Db.empty with
    items := ⟨[⟨1, "RAW001", "Plastic", none, 3, "kg", none, none, true, 100, 500, 1⟩], by decide⟩
    inventories := ⟨[⟨1, 1, 1, 30, 0, 1⟩], by decide⟩ }

/-- What is suggested is ordered and approved, and two hundred of it are received. -/
def orderAndReceive : List SupplyRequest :=
  let op : Operator := ⟨1, none, none⟩
  [.order (.create op ⟨60, [⟨1, 470, 2⟩]⟩) rfl,
    .order (.submit op 100) rfl,
    .order (.approve op 100) rfl,
    .order (.approve op 100) rfl,
    .move (.receipt op ⟨100, none, none, [⟨103, 1, 1, 200, none, 2⟩]⟩)]

end Slab
