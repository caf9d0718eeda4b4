import Slab.Erp.Requests

/-!
# Items of movements and of the lines they are booked against

The requests name an item and a line, and nothing checks that the line is of that item. The
journal agrees with the documents along the runs in which the requests do.

## Main definitions

- `Request.NamesItems` — the request names the items of the lines it refers to
- `Db.ReceiptsAgree` — receipt lines are of the items that were ordered
- `orderedAmounts` — what was moved of the item that a counter counts

## Main results

- `items_agree_of_serves` — journal, lines and counters along runs of such requests
- `otherItem_moved` — a delivery that names another item
-/

namespace Slab

open Txn

/-- Every movement of the request is of the item of the row it is booked against. -/
def Request.NamesItems (r : Request) (db : Db) : Prop :=
  ∀ m ∈ r.movements db, db.itemOf m.against = some m.itemId

/-- The row whose item a counter counts. -/
def Counter.target : Counter → Target
  | .delivered id => .salesOrderLine id
  | .received id => .purchaseOrderLine id
  | .returned id => .purchaseOrderLine id
  | .picked id => .material id

instance (r : Request) (db : Db) : Decidable (r.NamesItems db) :=
  inferInstanceAs (Decidable (∀ m ∈ r.movements db, db.itemOf m.against = some m.itemId))

/-- Every receipt line is of the item of its order line. -/
def Db.ReceiptsAgree (db : Db) : Prop :=
  ∀ l ∈ db.purchaseReceiptLines.rows,
    db.itemOf (.purchaseOrderLine l.orderLineId) = some l.itemId

/-- The journalled quantities that were booked on a counter and are of its item. -/
def orderedAmounts (db : Db) (c : Counter) (ms : List Movement)
    (rows : List InventoryTransaction) : List ℤ :=
  ((ms.zip rows).filter fun p =>
    p.1.counter = some c && db.itemOf c.target = some p.2.itemId).map fun p => p.2.quantity

/-! ## One request -/

/-- The movements of a request count on the line they are booked against, or, for returns, on
the order line of the receipt line. -/
theorem Request.counter_item {r : Request} {db : Db} (hnames : r.NamesItems db)
    (hagree : db.ReceiptsAgree) {m : Movement} (hm : m ∈ r.movements db) {c : Counter}
    (hc : m.counter = some c) : db.itemOf c.target = some m.itemId := by
  have hitem := hnames m hm
  cases r with
  | delivery ctx request =>
    obtain ⟨l, -, hl⟩ := List.mem_flatMap.mp hm
    obtain rfl := List.mem_singleton.mp hl
    obtain rfl := Option.some.inj hc
    exact hitem
  | receipt ctx request =>
    obtain ⟨l, -, hl⟩ := List.mem_flatMap.mp hm
    obtain rfl := List.mem_singleton.mp hl
    obtain rfl := Option.some.inj hc
    exact hitem
  | pick ctx workOrderId request =>
    obtain ⟨l, -, hl⟩ := List.mem_flatMap.mp hm
    obtain rfl := List.mem_singleton.mp hl
    obtain rfl := Option.some.inj hc
    exact hitem
  | createReturn ctx request => cases hm
  | submitReturn id => cases hm
  | approveReturn ctx id =>
    obtain ⟨j, hj, hl⟩ := List.mem_flatMap.mp hm
    obtain rfl := List.mem_singleton.mp hl
    obtain rfl := Option.some.inj hc
    obtain ⟨l, hline, hjoin⟩ := List.mem_filterMap.mp hj
    obtain ⟨rl, hrl, rfl⟩ := Option.map_eq_some_iff.mp hjoin
    have hget : db.purchaseReturnLines.get? l.id = some l :=
      Table.get?_of_mem (List.mem_filter.mp hline).1
    -- the item of the return line is that of its receipt line
    have hsame : rl.itemId = l.itemId := by
      simpa [PurchaseReturnApprove.movement, Db.itemOf, hget, hrl] using hitem
    have horder := hagree rl (Table.mem_of_get? hrl)
    rw [hsame] at horder
    exact horder
  | approveTransfer ctx id =>
    simp only [movements] at hm
    split at hm
    · obtain ⟨l, -, hl⟩ := List.mem_flatMap.mp hm
      rcases List.mem_pair.mp hl with rfl | rfl <;> cases hc
    · cases hm
  | productionReceipt ctx request =>
    simp only [movements] at hm
    split at hm
    · obtain rfl := List.mem_singleton.mp hm
      cases hc
    · cases hm

theorem Effect.receiptsAgree {ar : Arith} {ms : List Movement} {v w : Db}
    {rows : List InventoryTransaction} (h : Effect ar ms v rows w)
    (hnames : ∀ m ∈ ms, v.itemOf m.against = some m.itemId) (hv : v.ReceiptsAgree) :
    w.ReceiptsAgree := by
  intro l hl
  rcases h.counted.receipt l hl with hl | ⟨m, hm, hagainst, hitem⟩
  · exact h.counted.item _ _ (hv l hl)
  · have := h.counted.item _ _ (hnames m hm)
    rwa [hagainst, hitem] at this

/-! ## Runs -/

variable {ar : Arith} {v w : Db} {xs : List Serving}

/-- The movements of a run are of the items of the rows they are booked against, seen from the
end of the run. -/
theorem Serves.made_items (h : Serves ar v xs w)
    (hnames : ∀ x ∈ xs, x.result = .ok () → x.request.NamesItems x.found) :
    ∀ m ∈ xs.flatMap Serving.made, w.itemOf m.against = some m.itemId ∧
      (v.ReceiptsAgree → ∀ c, m.counter = some c → w.itemOf c.target = some m.itemId) := by
  induction xs generalizing v with
  | nil => intro m hm; cases hm
  | cons x xs ih =>
    obtain ⟨rfl, hx, hxs⟩ := h
    obtain ⟨rows, hrows⟩ := Serving.effect hx
    obtain ⟨rows', hrows'⟩ := hxs.effect
    -- what the request itself moved
    have hmade : ∀ m ∈ x.made, m ∈ x.request.movements x.found ∧ x.request.NamesItems x.found := by
      intro m hm
      unfold Serving.made at hm
      split at hm
      · next u hok => exact ⟨hm, hnames x List.mem_cons_self hok⟩
      · cases hm
    intro m hm
    rcases List.mem_append.mp (List.flatMap_cons ▸ hm) with hm | hm
    · obtain ⟨hmem, hitems⟩ := hmade m hm
      refine ⟨?_, fun hagree c hc => ?_⟩
      · exact hrows'.counted.item _ _ (hrows.counted.item _ _ (hitems m hmem))
      · have hcounted := Request.counter_item hitems hagree hmem hc
        exact hrows'.counted.item _ _ (hrows.counted.item _ _ hcounted)
    · obtain ⟨hitem, hcounter⟩ := ih hxs (fun y hy => hnames y (List.mem_cons_of_mem x hy)) m hm
      refine ⟨hitem, fun hagree => hcounter (hrows.receiptsAgree (fun m hm => ?_) hagree)⟩
      obtain ⟨hmem, hitems⟩ := hmade m hm
      exact hitems m hmem

/-- Where all that is booked on a counter is of its item, the ordered amounts are all. -/
theorem orderedAmounts_eq {ms : List Movement} {rows : List InventoryTransaction} {c : Counter}
    (hbooks : List.Forall₂ (Movement.Books ar) ms rows)
    (hitem : ∀ m ∈ ms, m.counter = some c → w.itemOf c.target = some m.itemId) :
    orderedAmounts w c ms rows = amounts c ms := by
  induction hbooks with
  | nil => rfl
  | @cons m row ms rows hbook _ ih =>
    have hrest := ih fun m' hm' => hitem m' (List.mem_cons_of_mem m hm')
    unfold orderedAmounts amounts at hrest ⊢
    rw [List.zip_cons_cons, List.filter_cons, List.filter_cons]
    by_cases hc : m.counter = some c
    · have htarget := hitem m List.mem_cons_self hc
      have htest : (m.counter = some c && w.itemOf c.target = some row.itemId) = true := by
        rw [hc, htarget, hbook.item]
        simp
      rw [if_pos htest, if_pos (by simp [hc]), List.map_cons, List.map_cons, hrest, hbook.quantity]
    · simp only [hc, decide_false, Bool.false_and, Bool.false_eq_true, if_false, hrest]

/-- After a run of requests that name the items of the lines they refer to: every journal row
is of the item of the row it is booked against, and each counter has gained exactly what was
moved of the ordered item, as the machine adds it up. -/
theorem items_agree_of_serves (h : Serves ar v xs w)
    (hnames : ∀ x ∈ xs, x.result = .ok () → x.request.NamesItems x.found) :
    ∃ rows, w.inventoryTransactions = v.inventoryTransactions ++ rows ∧
      List.Forall₂ (fun m row => m.Books ar row ∧ w.itemOf m.against = some row.itemId)
        (xs.flatMap Serving.made) rows ∧
      (v.ReceiptsAgree → ∀ c, w.counter c = (v.counter c).map fun q =>
        ar.addAll q (orderedAmounts w c (xs.flatMap Serving.made) rows)) := by
  obtain ⟨rows, hrows⟩ := h.effect
  have hitems := h.made_items hnames
  refine ⟨rows, hrows.booked.journal, ?_, fun hagree c => ?_⟩
  · have hall := (List.forall₂_and_left _ _).mpr
      ⟨fun m hm => (hitems m hm).1, hrows.booked.books⟩
    exact hall.imp fun m row ⟨hitem, hbook⟩ => ⟨hbook, hbook.item ▸ hitem⟩
  · rw [orderedAmounts_eq hrows.booked.books fun m hm => (hitems m hm).2 hagree c]
    exact hrows.counted.counter c

/-- A delivery of item 8 on an order line of item 7. -/
def otherItem : Request := .delivery ⟨1, none, none⟩ ⟨10, none, [⟨11, 8, 1, 3, none⟩]⟩

/-- It is carried out, and its stock movement is of item 8. -/
theorem otherItem_moved :
    ∃ xs w, Serves .i64 openOrders xs w ∧ ∃ row ∈ w.inventoryTransactions,
      ∃ line ∈ w.salesDeliveryLines.rows, row.referenceType = "sales_delivery" ∧
        row.referenceId = line.id ∧
        w.itemOf (.salesOrderLine line.orderLineId) ≠ some row.itemId :=
  ⟨_, _, serve_serves .i64 (numbered 100) openOrders [otherItem], by decide +kernel⟩

/-- A delivery, a receipt, a pick, and a return of part of the receipt. -/
def matchingItems : List Request :=
  [.delivery ⟨1, none, none⟩ ⟨10, none, [⟨11, 7, 1, 3, none⟩]⟩,
    .receipt ⟨1, none, none⟩ ⟨20, none, none, [⟨21, 8, 1, 6, none, 100⟩]⟩,
    .pick ⟨1, none, none⟩ 30 ⟨[⟨31, 7, 1, 4⟩]⟩,
    .createReturn ⟨1, none, none⟩ ⟨20, none, [⟨204, 8, 2, none⟩]⟩,
    .submitReturn 402, .approveReturn ⟨1, none, none⟩ 402]

theorem items_agree_of_serves_matchingItems :
    ∃ xs w rows, Serves .i64 openOrders xs w ∧ w.inventoryTransactions = rows ∧ rows.length = 4 ∧
      w.counter (.returned 21) = some 2 ∧
      List.Forall₂ (fun m row => m.Books .i64 row ∧ w.itemOf m.against = some row.itemId)
        (xs.flatMap Serving.made) rows := by
  have hrun := serve_serves .i64 (numbered 100) openOrders matchingItems
  have hnames : ∀ x ∈ (serve .i64 (numbered 100) openOrders matchingItems).1,
      x.request.NamesItems x.found := by
    decide +kernel
  have hlength : (serve .i64 (numbered 100) openOrders matchingItems).2.inventoryTransactions.length
      = 4 := by
    decide +kernel
  have hreturned : (serve .i64 (numbered 100) openOrders matchingItems).2.counter (.returned 21) =
      some 2 := by
    decide +kernel
  generalize serve .i64 (numbered 100) openOrders matchingItems = p at hrun hnames hlength hreturned
  obtain ⟨rows, hrows, hitems, -⟩ := items_agree_of_serves hrun fun x hx _ => hnames x hx
  obtain rfl : p.2.inventoryTransactions = rows := hrows
  exact ⟨p.1, p.2, _, hrun, rfl, hlength, hreturned, hitems⟩

end Slab
