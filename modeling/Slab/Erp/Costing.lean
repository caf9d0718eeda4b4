import Slab.Erp.Db

/-!
# Moving-average cost

`recalcWeightedAverage` runs after each purchase receipt line, in the same transaction: it
retires the item's current average and inserts the new one.
-/

namespace Slab

open Txn

/-- `SET is_current = FALSE`. -/
def ItemCost.retire (r : ItemCost) : ItemCost := { r with isCurrent := false }

theorem ItemCost.retire_id (r : ItemCost) : r.retire.id = r.id := rfl

namespace CostCalculator

variable (ar : Arith)

/-- The current average of an item, if it has one. -/
def current (item : ID) (db : Db) : Option ItemCost :=
  db.itemCosts.rows.find? fun c =>
    c.itemId = item && c.costType = CostType.weightedAverage.toI16 && c.isCurrent

/-- The new average: the receipt's own cost unless there was stock with a known cost. -/
def newAverage (current : Option ItemCost) (oldStock receiptQty receiptUnitCost : ℤ) :
    Option ℤ :=
  match current with
  | some r =>
    if oldStock > 0 then
      ar.div? (ar.add (ar.mul oldStock r.unitCost) (ar.mul receiptQty receiptUnitCost))
        (ar.add oldStock receiptQty)
    else some receiptUnitCost
  | none => some receiptUnitCost

def recalcWeightedAverage (item : ID) (receiptQty receiptUnitCost : ℤ) : Handler ℤ := do
  let cur ← Prog.select (current item)
  let total ← Prog.select fun db => db.total item
  -- the cast of the sum to BIGINT
  Prog.ensure (decide (ar.Fits total)) (.sql .bigintOutOfRange)
  -- the stock row has been updated already
  let oldStock := ar.sub total receiptQty
  let newAvg ← Prog.orFail (newAverage ar cur oldStock receiptQty receiptUnitCost) .divisionPanic
  match cur with
  | some r =>
    Prog.update (fun db => lockRow .itemCosts r.id (db.itemCosts.has r.id)) fun db =>
      { db with itemCosts := db.itemCosts.modify r.id ItemCost.retire ItemCost.retire_id }
  | none => pure ()
  let id ← ask .newId
  let effectiveAt ← ask .utcNow
  let cost : ItemCost :=
    { id := id, itemId := item, costType := CostType.weightedAverage.toI16, unitCost := newAvg
      currency := "CNY", effectiveAt := effectiveAt, isCurrent := true, remark := none }
  insertRow .itemCosts id (fun db => db.itemCosts.has id) fun db =>
    { db with itemCosts := db.itemCosts.insert cost }
  pure newAvg

/-- Everything but the costs. -/
def withoutCosts (db : Db) : Db := { db with itemCosts := .empty }

theorem recalcWeightedAverage_preserves (item : ID) (receiptQty receiptUnitCost : ℤ) :
    (recalcWeightedAverage ar item receiptQty receiptUnitCost).Preserves withoutCosts := by
  refine (Prog.preserves_select _).bind fun cur => ?_
  refine (Prog.preserves_select _).bind fun total => ?_
  refine (Prog.preserves_ensure _ _).bind fun _ => ?_
  refine (Prog.preserves_orFail _ _).bind fun newAvg => ?_
  have hinsert : ∀ id at', (insertRow .itemCosts id (fun db => db.itemCosts.has id) fun db =>
      { db with itemCosts := db.itemCosts.insert at' }).Preserves withoutCosts :=
    fun _ _ => Prog.preserves_insert (by intro _; rfl)
  cases cur with
  | none =>
    exact (Prog.preserves_ask _).bind fun _ => (Prog.preserves_ask _).bind fun _ =>
      (hinsert _ _).bind fun _ => Prog.preserves_ret _
  | some r =>
    refine (Prog.preserves_update (by intro _; rfl)).bind fun _ => ?_
    exact (Prog.preserves_ask _).bind fun _ => (Prog.preserves_ask _).bind fun _ =>
      (hinsert _ _).bind fun _ => Prog.preserves_ret _

end CostCalculator

end Slab
