import Slab.Erp.Requests

/-!
# The sign of stocks and movements

The handlers let any quantity through, and the ledger looks only whether an issue finds
enough. Stocks stay non-negative along the runs whose quantities are non-negative and whose
receipts fit in the word.

## Main definitions

- `Admissible` — the quantities of a list of movements, from given stocks
- `RightSign` — a journal row that does not go the wrong way

## Main results

- `replays_safe` — one list of admissible movements
- `stock_safe_of_serves` — whole runs
- `negativeQuantities_booked` — an issue that adds and a receipt that takes
-/

namespace Slab

open Txn

/-- The stocks after a movement, as integers. -/
def Movement.apply (m : Movement) (s : ID → ID → ℤ) : ID → ID → ℤ :=
  fun item warehouse =>
    if (item, warehouse) = (m.itemId, m.warehouseId) then
      if m.txType.isReceipt then s item warehouse + m.quantity else s item warehouse - m.quantity
    else s item warehouse

/-- No quantity is negative, and each receipt fits on top of the stock it finds. -/
def Admissible (s : ID → ID → ℤ) : List Movement → Prop
  | [] => True
  | m :: ms => 0 ≤ m.quantity ∧
    (m.txType.isReceipt = true → Arith.i64.Fits (s m.itemId m.warehouseId + m.quantity)) ∧
    Admissible (m.apply s) ms

/-- A row recorded as a receipt does not lower the stock, and one recorded as an issue does not
raise it. -/
def RightSign (row : InventoryTransaction) : Prop :=
  ∀ t : TransactionType, row.transactionType = t.toI16 →
    (t.isReceipt = true → row.beforeQuantity ≤ row.afterQuantity) ∧
    (t.isIssue = true → row.afterQuantity ≤ row.beforeQuantity)

/-- No stock is negative, and each is a word. -/
def Safe (s : ID → ID → ℤ) : Prop :=
  ∀ item warehouse, 0 ≤ s item warehouse ∧ Arith.i64.Fits (s item warehouse)

/-- The same of the rows of `inventories`. -/
def Db.StocksSafe (db : Db) : Prop :=
  ∀ r ∈ db.inventories.rows, 0 ≤ r.quantity ∧ Arith.i64.Fits r.quantity

theorem safe_stock_iff {db : Db} : Safe db.stock ↔ db.StocksSafe := by
  constructor
  · intro h r hr
    have hstock : db.stock r.itemId r.warehouseId = r.quantity := by
      have hget : db.inventories.get? (r.itemId, r.warehouseId) = some r := Table.get?_of_mem hr
      rw [Db.stock, Db.quantity?, hget, Option.map_some, Option.getD_some]
    rw [← hstock]
    exact h r.itemId r.warehouseId
  · intro h item warehouse
    rw [Db.stock, Db.quantity?]
    cases hg : db.inventories.get? (item, warehouse) with
    | none => exact ⟨le_refl 0, by decide⟩
    | some r => exact h r (Table.mem_of_get? hg)

/-- The requests that issue only what is there. -/
def Request.issuesChecked : Request → Bool
  | approveReturn _ _ => false
  | _ => true

/-! ## Lists of movements -/

theorem TransactionType.toI16_injective {t t' : TransactionType} (h : t.toI16 = t'.toI16) :
    t = t' := by
  cases t <;> cases t' <;> first | rfl | (simp only [toI16] at h; omega)

theorem fits_of_le {x y : ℤ} (h₀ : 0 ≤ x) (h : x ≤ y) (hy : Arith.i64.Fits y) :
    Arith.i64.Fits x := by
  rw [Arith.fits_i64_iff] at hy ⊢
  omega

section Movements

variable {s s' : ID → ID → ℤ} {m : Movement} {row : InventoryTransaction}

/-- An admissible movement leaves a stock that fits and is not negative, in the right
direction. -/
theorem after_safe (hkind : m.txType.isReceipt = true ∨ m.txType.isIssue = true)
    (hq : 0 ≤ m.quantity)
    (hfits : m.txType.isReceipt = true → Arith.i64.Fits (row.beforeQuantity + m.quantity))
    (hbook : m.Books .i64 row) (hs : 0 ≤ row.beforeQuantity ∧ Arith.i64.Fits row.beforeQuantity) :
    row.afterQuantity = (if m.txType.isReceipt then row.beforeQuantity + m.quantity
      else row.beforeQuantity - m.quantity) ∧
    0 ≤ row.afterQuantity ∧ Arith.i64.Fits row.afterQuantity := by
  have hafter := hbook.after
  unfold Movement.after at hafter
  by_cases hreceipt : m.txType.isReceipt = true
  · rw [if_pos hreceipt, Arith.add_eq_of_fits (hfits hreceipt)] at hafter
    rw [if_pos hreceipt, hafter]
    exact ⟨rfl, by omega, hfits hreceipt⟩
  · have hissue : m.txType.isIssue = true := hkind.resolve_left hreceipt
    have henough := hbook.enough hissue
    have hdiff : Arith.i64.Fits (row.beforeQuantity - m.quantity) :=
      fits_of_le (by omega) (by omega) hs.2
    rw [if_neg hreceipt, Arith.sub_eq_of_fits hdiff] at hafter
    rw [if_neg hreceipt, hafter]
    exact ⟨rfl, by omega, hdiff⟩

theorem rightSign_of_after (hq : 0 ≤ m.quantity) (hbook : m.Books .i64 row)
    (hafter : row.afterQuantity = if m.txType.isReceipt then row.beforeQuantity + m.quantity
      else row.beforeQuantity - m.quantity) : RightSign row := by
  intro t ht
  have htype : m.txType = t := TransactionType.toI16_injective (hbook.txType.symm.trans ht)
  rw [htype] at hafter
  refine ⟨fun hr => ?_, fun hi => ?_⟩
  · rw [hafter, if_pos hr]
    omega
  · have hr : ¬ t.isReceipt = true := by cases t <;> simp_all [TransactionType.isIssue,
      TransactionType.isReceipt]
    rw [hafter, if_neg hr]
    omega

/-- Admissible movements from safe stocks: the stocks stay safe after each one, and no row goes
the wrong way. -/
theorem replays_safe {ms : List Movement} {rows : List InventoryTransaction}
    (hkind : ∀ m ∈ ms, m.txType.isReceipt = true ∨ m.txType.isIssue = true)
    (hadm : Admissible s ms) (hbooks : List.Forall₂ (Movement.Books .i64) ms rows)
    (hreplay : Replays s rows s') (hs : Safe s) :
    Safe s' ∧ ∀ row ∈ rows, 0 ≤ row.afterQuantity ∧ RightSign row := by
  induction hbooks generalizing s with
  | nil =>
    obtain rfl : s' = s := hreplay
    exact ⟨hs, fun row hrow => by cases hrow⟩
  | @cons m row ms rows hbook _ ih =>
    obtain ⟨hq, hfits, hadm⟩ := hadm
    obtain ⟨hbefore, hreplay⟩ := hreplay
    rw [← hbook.item, ← hbook.warehouse, ← hbefore] at hfits
    have hstart := hs row.itemId row.warehouseId
    rw [← hbefore] at hstart
    obtain ⟨hafter, hpos, hfit⟩ := after_safe (hkind m List.mem_cons_self) hq hfits hbook hstart
    have happly : setStock s row = m.apply s := by
      funext item warehouse
      unfold setStock Movement.apply
      rw [hbook.item, hbook.warehouse]
      split
      · next hk =>
        obtain ⟨rfl, rfl⟩ := Prod.mk.inj hk
        rw [hafter, hbefore, hbook.item, hbook.warehouse]
      · rfl
    have hsafe : Safe (setStock s row) := by
      intro item warehouse
      unfold setStock
      split
      · exact ⟨hpos, hfit⟩
      · exact hs item warehouse
    obtain ⟨hsafe', hrows⟩ := ih (fun m' hm' => hkind m' (List.mem_cons_of_mem m hm'))
      (happly ▸ hadm) hreplay hsafe
    refine ⟨hsafe', fun row' hrow' => ?_⟩
    rcases List.mem_cons.mp hrow' with rfl | hrow'
    · exact ⟨hpos, rightSign_of_after hq hbook hafter⟩
    · exact hrows row' hrow'

end Movements

/-! ## Requests and runs -/

/-- A request that is no return books receipts and checked issues only. -/
theorem Request.movements_kind {r : Request} {db : Db} (h : r.issuesChecked = true) :
    ∀ m ∈ r.movements db, m.txType.isReceipt = true ∨ m.txType.isIssue = true := by
  intro m hm
  cases r with
  | delivery ctx request =>
    obtain ⟨l, -, hl⟩ := List.mem_flatMap.mp hm
    rw [List.mem_singleton.mp hl]
    exact .inr rfl
  | receipt ctx request =>
    obtain ⟨l, -, hl⟩ := List.mem_flatMap.mp hm
    rw [List.mem_singleton.mp hl]
    exact .inl rfl
  | pick ctx workOrderId request =>
    obtain ⟨l, -, hl⟩ := List.mem_flatMap.mp hm
    rw [List.mem_singleton.mp hl]
    exact .inr rfl
  | createReturn ctx request => cases hm
  | submitReturn id => cases hm
  | approveReturn ctx id => cases h
  | approveTransfer ctx id =>
    simp only [movements] at hm
    split at hm
    · obtain ⟨l, -, hl⟩ := List.mem_flatMap.mp hm
      rcases List.mem_pair.mp hl with rfl | rfl
      · exact .inr rfl
      · exact .inl rfl
    · cases hm
  | productionReceipt ctx request =>
    simp only [movements] at hm
    split at hm
    · rw [List.mem_singleton.mp hm]
      exact .inl rfl
    · cases hm

theorem Serves.safe {v w : Db} {xs : List Serving} (h : Serves .i64 v xs w)
    (hkind : ∀ x ∈ xs, x.request.issuesChecked = true)
    (hadm : ∀ x ∈ xs, x.result = .ok () →
      Admissible x.found.stock (x.request.movements x.found))
    (hv : Safe v.stock) :
    Safe w.stock ∧ ∃ rows, w.inventoryTransactions = v.inventoryTransactions ++ rows ∧
      Replays v.stock rows w.stock ∧ ∀ row ∈ rows, 0 ≤ row.afterQuantity ∧ RightSign row := by
  induction xs generalizing v with
  | nil =>
    obtain rfl : w = v := h
    exact ⟨hv, [], by simp, rfl, fun row hrow => by cases hrow⟩
  | cons x xs ih =>
    obtain ⟨rfl, hx, hxs⟩ := h
    obtain ⟨rows, hrows⟩ := Serving.effect hx
    have hmade : Admissible x.found.stock x.made ∧
        ∀ m ∈ x.made, m.txType.isReceipt = true ∨ m.txType.isIssue = true := by
      unfold Serving.made
      split
      · next u hok =>
        exact ⟨hadm x List.mem_cons_self hok,
          Request.movements_kind (hkind x List.mem_cons_self)⟩
      · exact ⟨trivial, fun m hm => by cases hm⟩
    obtain ⟨hsafe, hsign⟩ := replays_safe hmade.2 hmade.1 hrows.booked.books hrows.booked.stock hv
    obtain ⟨hsafe', rows', hjournal, hreplay, hsign'⟩ := ih hxs
      (fun y hy => hkind y (List.mem_cons_of_mem x hy))
      (fun y hy => hadm y (List.mem_cons_of_mem x hy)) hsafe
    refine ⟨hsafe', rows ++ rows', ?_, hrows.booked.stock.append hreplay, fun row hrow => ?_⟩
    · rw [hjournal, hrows.booked.journal, List.append_assoc]
    · rcases List.mem_append.mp hrow with hrow | hrow
      · exact hsign row hrow
      · exact hsign' row hrow

/-- Along every run of admissible requests from non-negative stocks: no `inventories` row is
ever negative, not even between two movements of a request; and no movement goes the wrong way. -/
theorem stock_safe_of_serves {v w : Db} {xs : List Serving} (h : Serves .i64 v xs w)
    (hkind : ∀ x ∈ xs, x.request.issuesChecked = true)
    (hadm : ∀ x ∈ xs, x.result = .ok () →
      Admissible x.found.stock (x.request.movements x.found))
    (hv : v.StocksSafe) :
    (∀ r ∈ w.inventories.rows, 0 ≤ r.quantity) ∧
    ∃ rows, w.inventoryTransactions = v.inventoryTransactions ++ rows ∧
      Replays v.stock rows w.stock ∧ ∀ row ∈ rows, 0 ≤ row.afterQuantity ∧ RightSign row := by
  obtain ⟨hsafe, hrows⟩ := h.safe hkind hadm (safe_stock_iff.mpr hv)
  exact ⟨fun r hr => (safe_stock_iff.mp hsafe r hr).1, hrows⟩

instance (db : Db) : Decidable db.StocksSafe :=
  inferInstanceAs (Decidable (∀ r ∈ db.inventories.rows, 0 ≤ r.quantity ∧
    Arith.i64.Fits r.quantity))

/-- A delivery of `-5` and a production receipt of `-3`. -/
def negativeQuantities : List Request :=
  [.delivery ⟨1, none, none⟩ ⟨10, none, [⟨11, 7, 1, -5, none⟩]⟩,
    .productionReceipt ⟨1, none, none⟩ ⟨30, 1, -3, none⟩]

/-- The delivery adds to the stock, and the receipt takes the stock below zero. -/
theorem negativeQuantities_booked :
    ∃ xs w, Serves .i64 openOrders xs w ∧ openOrders.StocksSafe ∧
      (∀ x ∈ xs, x.request.issuesChecked = true) ∧ w.stock 9 1 = -3 ∧
      ∃ row ∈ w.inventoryTransactions,
        row.transactionType = TransactionType.outbound.toI16 ∧
          row.beforeQuantity < row.afterQuantity :=
  ⟨_, _, serve_serves .i64 (numbered 100) openOrders negativeQuantities, by decide,
    by decide +kernel, by decide +kernel, by decide +kernel⟩

/-- A delivery, a production receipt and a pick. -/
def plainQuantities : List Request :=
  [.delivery ⟨1, none, none⟩ ⟨10, none, [⟨11, 7, 1, 5, none⟩]⟩,
    .productionReceipt ⟨1, none, none⟩ ⟨30, 1, 3, none⟩,
    .pick ⟨1, none, none⟩ 30 ⟨[⟨31, 7, 1, 4⟩]⟩]

instance decidableAdmissible (s : ID → ID → ℤ) :
    (ms : List Movement) → Decidable (Admissible s ms)
  | [] => isTrue trivial
  | m :: ms =>
    have := decidableAdmissible (m.apply s) ms
    inferInstanceAs (Decidable (0 ≤ m.quantity ∧
      (m.txType.isReceipt = true → Arith.i64.Fits (s m.itemId m.warehouseId + m.quantity)) ∧
      Admissible (m.apply s) ms))

theorem stock_safe_of_serves_plainQuantities :
    ∃ xs w, Serves .i64 openOrders xs w ∧ w.stock 7 1 = 11 ∧ w.stock 9 1 = 3 ∧
      ∀ r ∈ w.inventories.rows, 0 ≤ r.quantity := by
  have hrun := serve_serves .i64 (numbered 100) openOrders plainQuantities
  have hkind : ∀ x ∈ (serve .i64 (numbered 100) openOrders plainQuantities).1,
      x.request.issuesChecked = true := by
    decide +kernel
  have hadm : ∀ x ∈ (serve .i64 (numbered 100) openOrders plainQuantities).1,
      Admissible x.found.stock (x.request.movements x.found) := by
    decide +kernel
  have hstock : (serve .i64 (numbered 100) openOrders plainQuantities).2.stock 7 1 = 11 ∧
      (serve .i64 (numbered 100) openOrders plainQuantities).2.stock 9 1 = 3 := by
    decide +kernel
  generalize serve .i64 (numbered 100) openOrders plainQuantities = p at hrun hkind hadm hstock
  exact ⟨p.1, p.2, hrun, hstock.1, hstock.2,
    (stock_safe_of_serves hrun hkind (fun x hx _ => hadm x hx) (by decide)).1⟩

end Slab
