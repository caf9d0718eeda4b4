import Slab.Erp.PurchaseOrders
import Slab.Numeric.Average

/-!
# The moving average of purchase receipts

What the recalculation after a receipt line computes: when its 64-bit arithmetic is exact, and, in
exact integers, how far the current average of an item is from the value of all its receipts.

## Main definitions

- `CostCalculator.checkedAverage` — the recalculation with every operation checked
- `CostCalculator.Moderate` — the numbers for which nothing overflows or divides by zero
- `CostCalculator.Sound` — what a recalculation should do

## Main results

- `recalc_sound_iff` — a recalculation is sound iff its numbers are moderate
- `drift_bounded` — the current average is at most the exact one, and less than the number of
  receipt lines below it
-/

namespace Slab

open Txn

namespace CostCalculator

/-! ## Machine arithmetic -/

/-- The recalculation after `receiptQty` has been added to `total`, with every operation on 64-bit
integers checked: `none` where one overflows or divides by zero. -/
def checkedAverage (current : Option ItemCost) (total receiptQty receiptUnitCost : ℤ) :
    Option ℤ := do
  let oldStock ← Arith.i64.check? (total - receiptQty)
  match current with
  | some r =>
    if oldStock > 0 then do
      let oldValue ← Arith.i64.check? (oldStock * r.unitCost)
      let receiptValue ← Arith.i64.check? (receiptQty * receiptUnitCost)
      let value ← Arith.i64.check? (oldValue + receiptValue)
      let stock ← Arith.i64.check? (oldStock + receiptQty)
      Arith.i64.div? value stock
    else some receiptUnitCost
  | none => some receiptUnitCost

/-- Stock with a cost does not come to nothing, and the values of the old stock and of the receipt,
and their sum, are 64-bit integers, as is the stock before; the one quotient that is no 64-bit
integer is left out. -/
def Moderate (current : Option ItemCost) (total receiptQty receiptUnitCost : ℤ) : Prop :=
  Arith.i64.Fits (total - receiptQty) ∧ ∀ r, current = some r → 0 < total - receiptQty →
    total ≠ 0 ∧ Arith.i64.Fits ((total - receiptQty) * r.unitCost) ∧
    Arith.i64.Fits (receiptQty * receiptUnitCost) ∧
    Arith.i64.Fits ((total - receiptQty) * r.unitCost + receiptQty * receiptUnitCost) ∧
    ¬ ((total - receiptQty) * r.unitCost + receiptQty * receiptUnitCost = -2 ^ 63 ∧ total = -1)

/-- A quotient of 64-bit integers is one itself but for the least by -1. -/
theorem fits_tdiv {a b : ℤ} (ha : Arith.i64.Fits a) (hb : b ≠ 0) :
    Arith.i64.Fits (a.tdiv b) ↔ ¬ (a = -2 ^ 63 ∧ b = -1) := by
  rw [Arith.fits_i64_iff] at ha ⊢
  have hle : (a.tdiv b).natAbs ≤ a.natAbs := by
    rw [Int.natAbs_tdiv]
    exact Nat.div_le_self _ _
  constructor
  · rintro ⟨-, hu⟩ ⟨rfl, rfl⟩
    exact absurd hu (by decide)
  · intro hne
    refine ⟨by omega, ?_⟩
    by_contra hge
    -- the quotient is 2⁶³, so that the dividend is -2⁶³ and the divisor a unit
    have habs : (a.tdiv b).natAbs = a.natAbs := by omega
    have hmin : a = -2 ^ 63 := by omega
    have hunit : b.natAbs = 1 := by
      rw [Int.natAbs_tdiv] at habs
      by_contra hb1
      have hlt := Nat.div_lt_self (n := a.natAbs) (k := b.natAbs) (by omega) (by omega)
      exact absurd habs (Nat.ne_of_lt hlt)
    rcases Int.natAbs_eq b with hb1 | hb1
    · rw [hunit] at hb1
      rw [hb1, hmin] at hge
      exact hge (by decide)
    · rw [hunit] at hb1
      exact hne ⟨hmin, hb1⟩

theorem checkedAverage_isSome_iff {cur : Option ItemCost} {total q c : ℤ}
    (htotal : Arith.i64.Fits total) :
    (checkedAverage cur total q c).isSome = true ↔ Moderate cur total q c := by
  unfold checkedAverage Moderate
  rw [Arith.check?_bind_isSome]
  refine and_congr_right fun _ => ?_
  cases cur with
  | none => simp
  | some r =>
    simp only [Option.some.injEq, forall_eq']
    by_cases hpos : 0 < total - q
    · have hstock : total - q + q = total := by ring
      simp only [gt_iff_lt, hpos, if_true, forall_const, Arith.check?_bind_isSome,
        Arith.div?_isSome, hstock]
      constructor
      · rintro ⟨h₁, h₂, h₃, -, h0, hdiv⟩
        exact ⟨h0, h₁, h₂, h₃, (fits_tdiv h₃ h0).mp hdiv⟩
      · rintro ⟨h0, h₁, h₂, h₃, hdiv⟩
        exact ⟨h₁, h₂, h₃, htotal, h0, (fits_tdiv h₃ h0).mpr hdiv⟩
    · simp only [gt_iff_lt, hpos, if_false, Option.isSome_some, false_implies]

/-- Where the checks pass, the machine computes the exact average. -/
theorem newAverage_of_moderate {cur : Option ItemCost} {total q c : ℤ}
    (htotal : Arith.i64.Fits total) (h : Moderate cur total q c) :
    newAverage .i64 cur (Arith.i64.sub total q) q c = newAverage .exact cur (total - q) q c := by
  obtain ⟨hold, hcur⟩ := h
  rw [Arith.sub_eq_of_fits hold]
  cases cur with
  | none => rfl
  | some r =>
    simp only [newAverage]
    by_cases hpos : total - q > 0
    · obtain ⟨h0, h₁, h₂, h₃, hdiv⟩ := hcur r rfl hpos
      have hstock : total - q + q = total := by ring
      have hquot := (fits_tdiv h₃ h0).mpr hdiv
      have hsum : Arith.i64.add (Arith.i64.mul (total - q) r.unitCost) (Arith.i64.mul q c) =
          (total - q) * r.unitCost + q * c := by
        rw [Arith.mul, Arith.mul, h₁, h₂]
        exact h₃
      have hden : Arith.i64.add (total - q) q = total := by
        rw [Arith.add, hstock]
        exact htotal
      simp only [if_pos hpos, hsum, hden, Arith.exact_add, hstock]
      exact (Arith.div?_eq_some.mpr ⟨h0, hquot, rfl⟩).trans
        (Arith.div?_eq_some.mpr ⟨h0, Arith.exact_fits _, rfl⟩).symm
    · simp only [if_neg hpos]

/-- The exact average of a receipt of stock that is there is between the old cost and that of the
receipt, and rounded by less than one. -/
theorem newAverage_exact {r : ItemCost} {oldStock q c a : ℤ} (hold : 0 ≤ oldStock) (hq : 0 < q)
    (h : newAverage .exact (some r) oldStock q c = some a) :
    a ∈ Set.uIcc r.unitCost c ∧ |(a : ℚ) - Average.exact oldStock r.unitCost q c| < 1 := by
  have ha : a = Average.average oldStock r.unitCost q c := by
    simp only [newAverage] at h
    split at h
    · obtain ⟨-, -, hdiv⟩ := Arith.div?_eq_some.mp h
      exact hdiv.symm
    · next hpos =>
      -- nothing was there: the average is the cost of the receipt
      obtain rfl : oldStock = 0 := by omega
      cases h
      rw [Average.average, zero_mul, zero_add, zero_add, Int.mul_tdiv_cancel_left _ hq.ne']
  rw [ha]
  exact ⟨Average.average_mem_uIcc hold hq, Average.abs_average_sub_lt hold hq⟩

/-! ## The recalculation -/

/-- The costs without a current average of the item. -/
def retired (item : ID) (db : Db) : Table ItemCost.id :=
  match current item db with
  | some r => db.itemCosts.modify r.id ItemCost.retire ItemCost.retire_id
  | none => db.itemCosts

/-- The row of a new average. -/
def newCost (id item : ID) (unitCost : ℤ) (effectiveAt : Timestamp) : ItemCost where
  id := id
  itemId := item
  costType := CostType.weightedAverage.toI16
  unitCost := unitCost
  currency := "CNY"
  effectiveAt := effectiveAt
  isCurrent := true
  remark := none

/-- A recalculation that goes through has retired the old average and inserted the new one. -/
theorem recalc_runs_ok {ar : Arith} {item : ID} {q c a : ℤ} {v w : Db}
    (h : (recalcWeightedAverage ar item q c).Runs v w (.ok a)) :
    ar.Fits (v.total item) ∧
      newAverage ar (current item v) (ar.sub (v.total item) q) q c = some a ∧
      ∃ id time, (retired item v).get? id = none ∧
        w = { v with itemCosts := (retired item v).insert (newCost id item a time) } := by
  simp only [recalcWeightedAverage, Prog.runs_bind_ok, Prog.runs_select, Prog.runs_ensure_ok,
    Prog.runs_orFail_ok] at h
  obtain ⟨_, _, ⟨rfl, hcur⟩, _, _, ⟨rfl, htotal⟩, _, _, ⟨rfl, hfits⟩, v, avg, ⟨rfl, havg⟩, hrest⟩ :=
    h
  cases hcur
  cases htotal
  refine ⟨of_decide_eq_true hfits, ?_⟩
  unfold retired
  cases hc : current item v with
  | none =>
    rw [hc] at hrest havg
    simp only [ask, Prog.runs_bind_ok, Prog.runs_ask, insertRow, Prog.runs_insert_ok,
      unique_eq_none, Prog.pure_eq, Prog.runs_ret] at hrest
    obtain ⟨_, id, ⟨rfl, -⟩, _, time, ⟨rfl, -⟩, _, _, ⟨hfree, rfl⟩, rfl, ha⟩ := hrest
    cases ha
    exact ⟨havg, id, time, Table.has_eq_false.mp hfree, rfl⟩
  | some r =>
    rw [hc] at hrest havg
    simp only [ask, Prog.runs_bind_ok, Prog.runs_ask, Prog.runs_update, insertRow,
      Prog.runs_insert_ok, unique_eq_none, Prog.pure_eq, Prog.runs_ret] at hrest
    obtain ⟨_, _, ⟨rfl, -⟩, _, id, ⟨rfl, -⟩, _, time, ⟨rfl, -⟩, _, _, ⟨hfree, rfl⟩, rfl, ha⟩ := hrest
    cases ha
    exact ⟨havg, id, time, Table.has_eq_false.mp hfree, rfl⟩

/-- What a recalculation should do: no operation of it overflows or divides by zero, and the average
that it makes of an old cost and a receipt of stock that is there lies between the two, less than
one from the exact average. -/
structure Sound (v : Db) (item : ID) (q c : ℤ) (r : Except AppError ℤ) : Prop where
  faultless : Arith.i64.Fits (v.total item) →
    (checkedAverage (current item v) (v.total item) q c).isSome = true
  bounded : ∀ a cost, r = .ok a → current item v = some cost → 0 < q → 0 ≤ v.total item - q →
    a ∈ Set.uIcc cost.unitCost c ∧
      |(a : ℚ) - Average.exact (v.total item - q) cost.unitCost q c| < 1

/-- A recalculation is sound iff its numbers are moderate; a stock that is no 64-bit integer stops
it before it computes anything. -/
theorem recalc_sound_iff {item : ID} {q c : ℤ} {v w : Db} {r : Except AppError ℤ}
    (h : (recalcWeightedAverage .i64 item q c).Runs v w r) :
    Sound v item q c r ↔
      (Arith.i64.Fits (v.total item) → Moderate (current item v) (v.total item) q c) := by
  constructor
  · intro hs htotal
    exact (checkedAverage_isSome_iff htotal).mp (hs.faultless htotal)
  · intro hm
    refine ⟨fun htotal => (checkedAverage_isSome_iff htotal).mpr (hm htotal), ?_⟩
    rintro a cost rfl hcur hq hold
    obtain ⟨htotal, havg, -⟩ := recalc_runs_ok h
    rw [newAverage_of_moderate htotal (hm htotal), hcur] at havg
    exact newAverage_exact hold hq havg

/-- Three pieces at 100, and two more at 1000 that have come in. -/
def blended : Db :=
  { Db.empty with
    inventories := Table.empty.insert ⟨1, 1, 1, 5, 0, 1⟩
    itemCosts := Table.empty.insert (newCost 2 1 100 0) }

theorem recalc_sound_blended :
    ∃ w, (recalcWeightedAverage .i64 1 2 1000).Runs blended w (.ok 460) ∧
      Sound blended 1 2 1000 (.ok 460) := by
  have hok : ((recalcWeightedAverage .i64 1 2 1000).transact (numbered 9) blended).2.toOption =
      some 460 := by decide +kernel
  have hrun := Prog.transacts_ok.mp (Prog.transacts_of_toOption hok)
  refine ⟨_, hrun, (recalc_sound_iff hrun).mpr fun _ => ?_⟩
  have htotal : blended.total 1 = 5 := by decide +kernel
  have hcur : current 1 blended = some (newCost 2 1 100 0) := by decide +kernel
  rw [htotal, hcur]
  refine ⟨by decide, fun r hr _ => ?_⟩
  obtain rfl := Option.some.inj hr
  decide

end CostCalculator

/-- A line of five pieces is received and given back by a receipt of minus five. -/
def receivedBack : List OrderRequest :=
  [.create ⟨1, none, none⟩ ⟨1, [⟨1, 5, 100⟩]⟩, .submit ⟨1, none, none⟩ 100,
    .approve ⟨1, none, none⟩ 100, .approve ⟨1, none, none⟩ 100,
    .receipt ⟨1, none, none⟩ ⟨100, none, none, [⟨103, 1, 1, 5, none, 100⟩]⟩,
    .receipt ⟨1, none, none⟩ ⟨100, none, none, [⟨103, 1, 1, -5, none, 100⟩]⟩]

/-- The receipt that takes the stock back divides by zero. -/
theorem received_back_panics :
    ∃ xs w x, InOrder OrderRequest.run Db.empty xs w ∧ xs.map Service.request = receivedBack ∧
      xs.getLast? = some x ∧ x.result = .error .divisionPanic ∧
      CostCalculator.checkedAverage (CostCalculator.current 1 x.found) (x.found.total 1 + -5) (-5)
        100 = none := by
  have hlast : (serveInOrder OrderRequest.run (numbered 100) Db.empty receivedBack).1.getLast?.map
      (fun x => (x.result, CostCalculator.checkedAverage (CostCalculator.current 1 x.found)
        (x.found.total 1 + -5) (-5) 100)) = some (.error .divisionPanic, none) := by
    decide +kernel
  obtain ⟨x, hx, hfields⟩ := Option.map_eq_some_iff.mp hlast
  obtain ⟨hresult, hnone⟩ := Prod.mk.inj hfields
  exact ⟨_, _, x, inOrder_serveInOrder OrderRequest.run (numbered 100) Db.empty receivedBack,
    by decide +kernel, hx, hresult, hnone⟩

/-! ## The drift of the average -/

open CostCalculator (current retired newCost newAverage recalcWeightedAverage)

/-- The row is the current average of the item. -/
def ItemCost.averages (item : ID) (c : ItemCost) : Bool :=
  c.itemId = item && c.costType = CostType.weightedAverage.toI16 && c.isCurrent

/-- The current averages of an item: one at most, as it turns out. -/
def Db.averages (db : Db) (item : ID) : List ItemCost :=
  db.itemCosts.rows.filter (ItemCost.averages item)

theorem current_eq_head? (item : ID) (db : Db) : current item db = (db.averages item).head? :=
  (List.head?_filter ..).symm

/-- The stock and the cost of an item are those of a moving average. -/
structure Db.Shows (db : Db) (item : ID) (s : Average.Moving) : Prop where
  stock : db.total item = s.weight
  cost : s.weight = 0 ∧ db.averages item = [] ∨
    0 < s.weight ∧ ∃ r, db.averages item = [r] ∧ r.unitCost = s.value

theorem Db.Shows.congr {v w : Db} {item : ID} {s : Average.Moving} (h : v.Shows item s)
    (hi : w.inventories = v.inventories) (hc : w.itemCosts = v.itemCosts) : w.Shows item s := by
  constructor
  · rw [Db.total, hi]
    exact h.stock
  · have ha : w.averages item = v.averages item := by rw [Db.averages, hc]; rfl
    rw [ha]
    exact h.cost

namespace CostCalculator

theorem averages_of_current {item : ID} {db : Db} {r : ItemCost} (h : current item db = some r) :
    r.averages item = true ∧ r ∈ db.itemCosts.rows := by
  rw [current_eq_head?] at h
  have hmem := List.mem_filter.mp (List.mem_of_mem_head? h)
  exact ⟨hmem.2, hmem.1⟩

theorem retire_averages (item : ID) (r : ItemCost) : r.retire.averages item = false := by
  simp [ItemCost.averages, ItemCost.retire]

/-- When the only average of an item is retired there is none. -/
theorem retired_averages {item : ID} {db : Db} (h : (db.averages item).length ≤ 1) :
    (retired item db).rows.filter (ItemCost.averages item) = [] := by
  unfold retired
  cases hc : current item db with
  | none =>
    rw [current_eq_head?, List.head?_eq_none_iff] at hc
    exact hc
  | some r =>
    rw [current_eq_head?] at hc
    have hone : db.averages item = [r] := by
      cases hl : db.averages item with
      | nil =>
        rw [hl] at hc
        cases hc
      | cons x xs =>
        rw [hl] at hc h
        obtain rfl := Option.some.inj hc
        rw [List.length_cons] at h
        rw [List.eq_nil_of_length_eq_zero (l := xs) (by omega)]
    rw [Table.rows_modify, List.filter_eq_nil_iff]
    intro x hx
    obtain ⟨y, hy, rfl⟩ := List.mem_map.mp hx
    split
    · rw [retire_averages]
      exact Bool.false_ne_true
    · next hne =>
      intro hav
      have hmem : y ∈ db.averages item := List.mem_filter.mpr ⟨hy, hav⟩
      rw [hone, List.mem_singleton] at hmem
      exact hne (congrArg ItemCost.id hmem)

/-- The averages of other items stay as they are. -/
theorem retired_averages_of_ne {item other : ID} (hne : other ≠ item) (db : Db) :
    (retired other db).rows.filter (ItemCost.averages item) = db.averages item := by
  unfold retired
  cases hc : current other db with
  | none => rfl
  | some r =>
    obtain ⟨hav, hmem⟩ := averages_of_current hc
    have hr : r.averages item = false := by
      simp only [ItemCost.averages, Bool.and_eq_true, decide_eq_true_eq] at hav ⊢
      simp [hav.1.1, hne]
    have hkey : ∀ x ∈ db.itemCosts.rows, x.id = r.id → x = r := fun x hx he =>
      Option.some.inj ((Table.get?_of_mem hx).symm.trans ((congrArg db.itemCosts.get? he).trans
        (Table.get?_of_mem hmem)))
    rw [Table.rows_modify, List.filter_map]
    have hsame : db.itemCosts.rows.filter (ItemCost.averages item ∘
        fun x => if x.id = r.id then x.retire else x) = db.averages item := by
      apply List.filter_congr
      intro x hx
      simp only [Function.comp_apply]
      split
      · next he => rw [retire_averages, hkey x hx he, hr]
      · rfl
    rw [hsame]
    apply (List.map_congr_left fun x hx => ?_).trans (List.map_id _)
    obtain ⟨hx, hxa⟩ := List.mem_filter.mp hx
    have hxr : x.id ≠ r.id := fun he => by
      rw [hkey x hx he, hr] at hxa
      cases hxa
    exact if_neg hxr

theorem newCost_averages (id item other : ID) (a : ℤ) (time : Timestamp) :
    (newCost id item a time).averages other = decide (item = other) := by
  by_cases h : item = other <;> simp [ItemCost.averages, newCost, h]

/-- A recalculation of the item, whose stock has `q` more than what is shown, makes the average of
both. -/
theorem recalc_shows {item : ID} {q c a : ℤ} {u w : Db} {s : Average.Moving} (hq : 0 < q)
    (hstock : u.total item = s.weight + q)
    (hcost : s.weight = 0 ∧ u.averages item = [] ∨
      0 < s.weight ∧ ∃ r, u.averages item = [r] ∧ r.unitCost = s.value)
    (h : (recalcWeightedAverage .exact item q c).Runs u w (.ok a)) :
    w.Shows item (s.add q c) := by
  obtain ⟨-, havg, id, time, hfree, rfl⟩ := recalc_runs_ok h
  have hlen : (u.averages item).length ≤ 1 := by
    rcases hcost with ⟨-, hnil⟩ | ⟨-, r, hone, -⟩
    · simp [hnil]
    · simp [hone]
  have hnew : a = (s.add q c).value := by
    have hold : Arith.exact.sub (u.total item) q = s.weight := by
      rw [Arith.exact_sub, hstock]
      ring
    rw [hold, current_eq_head?] at havg
    rcases hcost with ⟨hw, hnil⟩ | ⟨hw, r, hone, hr⟩
    · rw [hnil] at havg
      have hpos : ¬ 0 < s.weight := by omega
      simp only [Average.Moving.add, if_neg hpos]
      exact (Option.some.inj havg).symm
    · rw [hone] at havg
      simp only [List.head?_cons, newAverage, gt_iff_lt, hw, if_true] at havg
      obtain ⟨-, -, hdiv⟩ := Arith.div?_eq_some.mp havg
      simp only [Average.Moving.add, if_pos hw]
      rw [← hdiv, hr]
      rfl
  have hweight : 0 < s.weight + q := by
    rcases hcost with ⟨hw, -⟩ | ⟨hw, -⟩ <;> omega
  refine ⟨hstock, .inr ⟨hweight, newCost id item a time, ?_, hnew⟩⟩
  have hrows := Table.rows_insert (t := retired item u) (r := newCost id item a time) hfree
  simp only [Db.averages, hrows, List.filter_append, retired_averages hlen, List.nil_append]
  simp [newCost_averages]

/-- A recalculation of another item shows the same of this one. -/
theorem recalc_shows_of_ne {item other : ID} {q c a : ℤ} {u w : Db} {s : Average.Moving}
    (hne : other ≠ item) (hu : u.Shows item s)
    (h : (recalcWeightedAverage .exact other q c).Runs u w (.ok a)) : w.Shows item s := by
  obtain ⟨-, -, id, time, hfree, rfl⟩ := recalc_runs_ok h
  have hrows := Table.rows_insert (t := retired other u) (r := newCost id other a time) hfree
  refine ⟨hu.stock, ?_⟩
  have hsame : Db.averages { u with
      itemCosts := (retired other u).insert (newCost id other a time) } item =
      u.averages item := by
    simp only [Db.averages, hrows, List.filter_append]
    rw [retired_averages_of_ne hne]
    simp [newCost_averages, hne, Db.averages]
  rw [hsame]
  exact hu.cost

end CostCalculator

/-! ## Receipts of the item -/

/-- The quantities and unit costs of the lines of a receipt that are of the item. -/
def linesOf (item : ID) (lines : List PurchaseReceiptCreate.CreateReceiptLine) : List (ℤ × ℤ) :=
  (lines.filter fun line => line.itemId = item).map fun line => (line.quantity, line.unitCost)

namespace PurchaseReceiptCreate

/-- A line that goes through receives the stock and recalculates the cost. -/
theorem receiveLine_recalcs {ar : Arith} {orderId receiptId : ID} {line : CreateReceiptLine}
    {v w : Db} (h : (receiveLine ar orderId receiptId line).Runs v w (.ok ())) :
    ∃ u a, u.itemCosts = v.itemCosts ∧
      (∀ i, u.total i = v.total i + if line.itemId = i then
        ar.add (v.stock line.itemId line.warehouseId) line.quantity -
          v.stock line.itemId line.warehouseId else 0) ∧
      (recalcWeightedAverage ar line.itemId line.quantity line.unitCost).Runs u w (.ok a) := by
  simp only [receiveLine, Prog.runs_bind_ok, ask, Prog.runs_ask, Prog.runs_selectForUpdate,
    Prog.runs_orFail_ok, Prog.runs_ensure_ok, insertLine, insertRow, Prog.runs_insert_ok,
    updateOrderLine, Prog.runs_update, Prog.pure_eq, Prog.runs_ret] at h
  obtain ⟨_, lineId, ⟨rfl, -⟩, _, _, ⟨rfl, -⟩, _, ol, ⟨rfl, -⟩, _, _, ⟨rfl, -⟩, _, _, ⟨-, rfl⟩, _, _,
    ⟨rfl, -⟩, u, _, hreceive, _, a, hcost, rfl, -⟩ := h
  have hkept := (InventoryLedger.receive_preserves _).runs hreceive
  have hcosts := congrArg Db.itemCosts hkept
  obtain ⟨-, hposts⟩ := InventoryLedger.receive_runs.mp hreceive
  exact ⟨u, a, hcosts, hposts.total rfl, hcost⟩

/-- The lines of a receipt are added one after another to what is shown of the item. -/
theorem receiveLines_shows {item orderId receiptId : ID} {lines : List CreateReceiptLine}
    {v w : Db} {s : Average.Moving} (hlines : ∀ l ∈ linesOf item lines, 0 < l.1)
    (hv : v.Shows item s)
    (h : (Prog.forEach lines (receiveLine .exact orderId receiptId)).Runs v w (.ok ())) :
    w.Shows item (s.addAll (linesOf item lines)) := by
  induction lines generalizing v s with
  | nil =>
    obtain ⟨rfl, -⟩ := h
    exact hv
  | cons line lines ih =>
    obtain ⟨x, h₁, h₂⟩ := Prog.runs_forEach_cons_ok.mp h
    obtain ⟨u, a, hcosts, htotal, hrecalc⟩ := receiveLine_recalcs h₁
    have hstock := htotal item
    rw [hv.stock] at hstock
    have hcost : s.weight = 0 ∧ u.averages item = [] ∨
        0 < s.weight ∧ ∃ r, u.averages item = [r] ∧ r.unitCost = s.value := by
      have ha : u.averages item = v.averages item := by rw [Db.averages, hcosts]; rfl
      rw [ha]
      exact hv.cost
    by_cases hitem : line.itemId = item
    · have hof : linesOf item (line :: lines) =
          (line.quantity, line.unitCost) :: linesOf item lines := by
        simp [linesOf, hitem]
      rw [hof] at hlines ⊢
      rw [if_pos hitem, Arith.exact_add, add_sub_cancel_left] at hstock
      rw [hitem] at hrecalc
      exact ih (fun l hl => hlines l (List.mem_cons_of_mem _ hl))
        (CostCalculator.recalc_shows (hlines _ List.mem_cons_self) hstock hcost hrecalc) h₂
    · have hof : linesOf item (line :: lines) = linesOf item lines := by
        simp [linesOf, hitem]
      rw [hof] at hlines ⊢
      rw [if_neg hitem, add_zero] at hstock
      exact ih hlines (CostCalculator.recalc_shows_of_ne hitem ⟨hstock, hcost⟩ hrecalc) h₂

theorem execute_shows {item : ID} {ctx : Operator} {request : CreateReceiptRequest} {v w : Db}
    {response : CreateReceiptResponse} {s : Average.Moving}
    (hlines : ∀ l ∈ linesOf item request.lines, 0 < l.1) (hv : v.Shows item s)
    (h : (execute .exact ctx request).Runs v w (.ok response)) :
    w.Shows item (s.addAll (linesOf item request.lines)) := by
  simp only [execute, Prog.runs_bind_ok, Prog.pure_eq, Prog.runs_ret] at h
  obtain ⟨_, _, hheader, u, _, hloop, _, _, hrecord, rfl, -⟩ := h
  obtain ⟨receipt, rfl⟩ := createHeader_runs_ok hheader
  have hheaded : Db.Shows { v with purchaseReceipts := v.purchaseReceipts.insert receipt } item s :=
    hv.congr rfl rfl
  have hu := receiveLines_shows hlines hheaded hloop
  have hkept := (recordHeader_preserves ctx _).runs hrecord
  have hi := congrArg Db.inventories hkept
  have hc := congrArg Db.itemCosts hkept
  exact hu.congr hi hc

end PurchaseReceiptCreate

/-- A program that leaves stock and costs alone. -/
structure Bystander where
  run : Handler Unit
  keeps : run.Preserves fun db => (db.inventories, db.itemCosts)

/-- A purchase receipt, or something that moves no stock and changes no cost. -/
inductive ReceiptRequest where
  | receipt (ctx : Operator) (request : PurchaseReceiptCreate.CreateReceiptRequest)
  | other (program : Bystander)

namespace ReceiptRequest

def run : ReceiptRequest → Handler Unit
  | receipt ctx request => do
    let _ ← PurchaseReceiptCreate.execute .exact ctx request
    pure ()
  | other program => program.run

def lines (item : ID) : ReceiptRequest → List (ℤ × ℤ)
  | receipt _ request => linesOf item request.lines
  | other _ => []

end ReceiptRequest

/-- The lines of the item that the receipts which went through have received. -/
def received (item : ID) (xs : List (Service Db AppError Unit ReceiptRequest)) : List (ℤ × ℤ) :=
  xs.flatMap fun x => if x.result.isOk then x.request.lines item else []

theorem shows_of_services {item : ID} {v w : Db} {s : Average.Moving}
    {xs : List (Service Db AppError Unit ReceiptRequest)}
    (h : InOrder ReceiptRequest.run v xs w) (hlines : ∀ l ∈ received item xs, 0 < l.1)
    (hv : v.Shows item s) : w.Shows item (s.addAll (received item xs)) := by
  induction xs generalizing v s with
  | nil => exact h ▸ hv
  | cons x xs ih =>
    obtain ⟨rfl, hx, hrest⟩ := h
    cases hr : x.result with
    | error e =>
      rw [hr] at hx
      have hof : received item (x :: xs) = received item xs := by
        simp [received, hr, Except.isOk, Except.toBool]
      rw [hof] at hlines ⊢
      exact ih hrest hlines (hx.of_error ▸ hv)
    | ok u =>
      rw [hr] at hx
      have hof : received item (x :: xs) = x.request.lines item ++ received item xs := by
        simp [received, hr, Except.isOk, Except.toBool]
      rw [hof] at hlines ⊢
      have hadd : s.addAll (x.request.lines item ++ received item xs) =
          (s.addAll (x.request.lines item)).addAll (received item xs) := List.foldl_append
      rw [hadd]
      refine ih hrest (fun l hl => hlines l (List.mem_append_right _ hl)) ?_
      have hown := fun l hl => hlines l (List.mem_append_left _ hl)
      cases hreq : x.request with
      | receipt ctx request =>
        rw [hreq] at hx hown
        obtain ⟨response, hrun⟩ := Prog.runs_discard (Prog.transacts_ok.mp hx)
        exact PurchaseReceiptCreate.execute_shows hown hv hrun
      | other program =>
        rw [hreq] at hx
        have hkept := program.keeps.runs (Prog.transacts_ok.mp hx)
        exact hv.congr (congrArg Prod.fst hkept) (congrArg Prod.snd hkept)

/-- What received lines are worth. -/
def worth (lines : List (ℤ × ℤ)) : ℤ := (lines.map fun l => l.1 * l.2).sum

/-- How many pieces they are. -/
def pieces (lines : List (ℤ × ℤ)) : ℤ := (lines.map Prod.fst).sum

/-- The weight of a moving average is the sum of what has been added. -/
theorem weight_addAll (s : Average.Moving) (xs : List (ℤ × ℤ)) :
    (s.addAll xs).weight = s.weight + pieces xs := by
  induction xs generalizing s with
  | nil => simp [Average.Moving.addAll, pieces]
  | cons x xs ih =>
    have hcons : s.addAll (x :: xs) = (s.add x.1 x.2).addAll xs := rfl
    rw [hcons, ih]
    simp [Average.Moving.add, pieces, add_assoc]

/-- From nothing, and with receipts of the item only, its current average is at most what all
receipts were worth for each piece, and less below it than there were lines. -/
theorem drift_bounded {item : ID} {v w : Db} {xs : List (Service Db AppError Unit ReceiptRequest)}
    (h : InOrder ReceiptRequest.run v xs w) (hstock : v.total item = 0)
    (hcosts : ∀ c ∈ v.itemCosts.rows, c.itemId ≠ item)
    (hlines : ∀ l ∈ received item xs, 0 < l.1 ∧ 0 ≤ l.2) (hsome : received item xs ≠ []) :
    ∃ r, current item w = some r ∧
      (r.unitCost : ℚ) ≤ worth (received item xs) / pieces (received item xs) ∧
      (worth (received item xs) : ℚ) / pieces (received item xs) - r.unitCost <
        (received item xs).length := by
  have hv : v.Shows item .empty := by
    refine ⟨hstock, .inl ⟨rfl, List.filter_eq_nil_iff.mpr fun c hc => ?_⟩⟩
    simp [ItemCost.averages, hcosts c hc]
  have hw := shows_of_services h (fun l hl => (hlines l hl).1) hv
  have htracks := Average.Moving.tracks_addAll Average.Moving.tracks_empty hlines
  rw [zero_add, zero_add] at htracks
  have hpos : 0 < (received item xs).length := List.length_pos_of_ne_nil hsome
  have hweight : (Average.Moving.empty.addAll (received item xs)).weight =
      pieces (received item xs) := (weight_addAll _ _).trans (zero_add _)
  obtain ⟨hle, hlt⟩ := htracks.exact hpos
  rw [hweight] at hle hlt
  rcases hw.cost with ⟨hzero, -⟩ | ⟨-, r, hone, hvalue⟩
  · rcases htracks.weight with ⟨hnone, -⟩ | ⟨-, hsome⟩ <;> omega
  · rw [← hvalue] at hle hlt
    refine ⟨r, ?_, hle, hlt⟩
    rw [current_eq_head?, hone]
    rfl

/-- An approved order of ten pieces. -/
def tenOrdered : Db :=
  { Db.empty with
    purchaseOrders := Table.empty.insert ⟨1, 1, PurchaseOrderStatus.approved.toI16, 0⟩
    purchaseOrderLines := Table.empty.insert ⟨2, 1, 7, 10, 0, 0, false, 1, 0, 0⟩ }

/-- Three of them at 100 and two at 1001 are received at once. -/
def twoLines : List ReceiptRequest :=
  [.receipt ⟨1, none, none⟩ ⟨1, none, none, [⟨2, 7, 1, 3, none, 100⟩, ⟨2, 7, 1, 2, none, 1001⟩]⟩]

theorem drift_of_two_lines :
    ∃ xs w r, InOrder ReceiptRequest.run tenOrdered xs w ∧
      received 7 xs = [(3, 100), (2, 1001)] ∧ current 7 w = some r ∧
      (r.unitCost : ℚ) ≤ 2302 / 5 ∧ 2302 / 5 - (r.unitCost : ℚ) < 2 := by
  have hrun := inOrder_serveInOrder ReceiptRequest.run (numbered 100) tenOrdered twoLines
  have hlines : received 7 (serveInOrder ReceiptRequest.run (numbered 100) tenOrdered twoLines).1 =
      [(3, 100), (2, 1001)] := by decide +kernel
  obtain ⟨r, hr, hle, hlt⟩ := drift_bounded (h := hrun) (by decide +kernel : tenOrdered.total 7 = 0)
    (fun c hc => by cases hc) (by rw [hlines]; decide) (by rw [hlines]; decide)
  rw [hlines] at hle hlt
  refine ⟨_, _, r, hrun, hlines, hr, ?_, ?_⟩
  · simpa [worth, pieces] using hle
  · simpa [worth, pieces] using hlt

end Slab
