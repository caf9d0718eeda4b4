import Slab.Erp.Warehouse

/-!
# What an approved stock transfer moves

## Main definitions

- `StockTransferApprove.moved` — the sum of an item's line quantities
- `StockTransferApprove.net` — what a transfer adds to a stock

## Main results

- `transferItems_stock` — the line loop adds `net` to each stock, as machine integers
- `transferItems_total` — the loop changes an item's total by what it changed at its ends
- `approve_conserves` — a whole approval
-/

namespace Slab

open Txn

namespace StockTransferApprove

/-- The sum of the quantities of the lines of an item. -/
def moved (lines : List StockTransferItem) (item : ID) : ℤ :=
  ((lines.filter fun l => l.itemId = item).map StockTransferItem.quantity).sum

/-- What a transfer adds to the stock of an item in a warehouse. -/
def net (fromWh toWh : ID) (lines : List StockTransferItem) (item warehouse : ID) : ℤ :=
  (if warehouse = toWh then moved lines item else 0) -
    if warehouse = fromWh then moved lines item else 0

theorem moved_cons (l : StockTransferItem) (ls : List StockTransferItem) (item : ID) :
    moved (l :: ls) item = (if l.itemId = item then l.quantity else 0) + moved ls item := by
  by_cases h : l.itemId = item <;> simp [moved, h]

theorem moved_nil (item : ID) : moved [] item = 0 := rfl

theorem net_cons (fromWh toWh : ID) (l : StockTransferItem) (ls : List StockTransferItem)
    (item warehouse : ID) :
    net fromWh toWh (l :: ls) item warehouse =
      net fromWh toWh [l] item warehouse + net fromWh toWh ls item warehouse := by
  simp only [net, moved_cons, moved_nil, add_zero]
  generalize (if l.itemId = item then l.quantity else 0) = q
  split_ifs <;> omega

theorem net_singleton_of_ne {fromWh toWh : ID} {l : StockTransferItem} {item warehouse : ID}
    (h : l.itemId ≠ item) : net fromWh toWh [l] item warehouse = 0 := by
  simp [net, moved, h]

/-- What leaves one warehouse arrives in the other. -/
theorem net_ends {fromWh toWh : ID} (h : fromWh ≠ toWh) (lines : List StockTransferItem)
    (item : ID) : net fromWh toWh lines item fromWh + net fromWh toWh lines item toWh = 0 := by
  simp [net, h, Ne.symm h]

theorem net_same (wh : ID) (lines : List StockTransferItem) (item warehouse : ID) :
    net wh wh lines item warehouse = 0 := by
  simp [net]

/-! ## The line loop -/

section Loop

variable {ar : Arith} {id fromWh toWh : ID} {v w : Db}

/-- The two movements of a line. -/
theorem transferItem_posts {l : StockTransferItem}
    (h : (transferItem ar id fromWh toWh l).Runs v w (.ok ())) :
    ∃ u, Db.Posts (InventoryLedger.transferOutCommand l.itemId fromWh l.quantity id none)
        (v.stock l.itemId fromWh) (ar.sub (v.stock l.itemId fromWh) l.quantity) v u ∧
      Db.Posts (InventoryLedger.transferInCommand l.itemId toWh l.quantity id none)
        (u.stock l.itemId toWh) (ar.add (u.stock l.itemId toWh) l.quantity) u w := by
  obtain ⟨u, hissue, hreceive⟩ := InventoryLedger.transfer_runs_ok.mp h
  exact ⟨u, (InventoryLedger.issue_runs_ok.mp hissue).2,
    (InventoryLedger.receive_runs.mp hreceive).2⟩

/-- A stock is what it was, or it has been computed anew. -/
def Recomputed (ar : Arith) (v w : Db) (item warehouse : ID) (delta : ℤ) : Prop :=
  (w.stock item warehouse = v.stock item warehouse ∧ delta = 0) ∨
    w.stock item warehouse = ar.norm (v.stock item warehouse + delta)

theorem Recomputed.trans {u : Db} {item warehouse : ID} {a b : ℤ}
    (h : Recomputed ar v u item warehouse a) (h' : Recomputed ar u w item warehouse b) :
    Recomputed ar v w item warehouse (a + b) := by
  rcases h with ⟨h, rfl⟩ | h <;> rcases h' with ⟨h', rfl⟩ | h'
  · exact .inl ⟨h'.trans h, rfl⟩
  · exact .inr (by rw [h', h, zero_add])
  · exact .inr (by rw [h', h, add_zero])
  · exact .inr (by rw [h', h, ar.norm_add, add_assoc])

theorem Recomputed.norm {item warehouse : ID} {d : ℤ} (h : Recomputed ar v w item warehouse d) :
    ar.norm (w.stock item warehouse) = ar.norm (v.stock item warehouse + d) := by
  rcases h with ⟨h, rfl⟩ | h
  · rw [h, add_zero]
  · rw [h, Arith.norm_norm]

theorem Recomputed.of_fits {item warehouse : ID} {d : ℤ}
    (h : Recomputed ar v w item warehouse d) (hf : ar.Fits (v.stock item warehouse + d)) :
    w.stock item warehouse = v.stock item warehouse + d := by
  rcases h with ⟨h, rfl⟩ | h
  · rw [h, add_zero]
  · exact h.trans hf

/-- A line takes its quantity from one end and adds it at the other. -/
theorem transferItem_stock {l : StockTransferItem}
    (h : (transferItem ar id fromWh toWh l).Runs v w (.ok ())) (item warehouse : ID) :
    Recomputed ar v w item warehouse (net fromWh toWh [l] item warehouse) := by
  obtain ⟨u, hout, hin⟩ := transferItem_posts h
  have hu : Recomputed ar v u item warehouse
      (-if (item, warehouse) = (l.itemId, fromWh) then l.quantity else 0) := by
    by_cases hk : (item, warehouse) = (l.itemId, fromWh)
    · have hs := (hout.stock item warehouse).trans (if_pos hk)
      obtain ⟨rfl, rfl⟩ := Prod.mk.inj hk
      refine .inr ?_
      rw [hs, if_pos rfl, Arith.sub, sub_eq_add_neg]
    · have hs := (hout.stock item warehouse).trans (if_neg hk)
      exact .inl ⟨hs, by rw [if_neg hk, neg_zero]⟩
  have hw : Recomputed ar u w item warehouse
      (if (item, warehouse) = (l.itemId, toWh) then l.quantity else 0) := by
    by_cases hk : (item, warehouse) = (l.itemId, toWh)
    · have hs := (hin.stock item warehouse).trans (if_pos hk)
      obtain ⟨rfl, rfl⟩ := Prod.mk.inj hk
      refine .inr ?_
      rw [hs, if_pos rfl, Arith.add]
    · have hs := (hin.stock item warehouse).trans (if_neg hk)
      exact .inl ⟨hs, by rw [if_neg hk]⟩
  have hnet : net fromWh toWh [l] item warehouse =
      (-if (item, warehouse) = (l.itemId, fromWh) then l.quantity else 0) +
        if (item, warehouse) = (l.itemId, toWh) then l.quantity else 0 := by
    by_cases hi : l.itemId = item
    · simp only [net, moved_cons, hi, if_true, moved_nil, add_zero, Prod.mk.injEq, true_and]
      omega
    · simp [net_singleton_of_ne hi, Ne.symm hi]
  rw [hnet]
  exact hu.trans hw

theorem transferItems_stock {ls : List StockTransferItem}
    (h : (Prog.forEach ls (transferItem ar id fromWh toWh)).Runs v w (.ok ()))
    (item warehouse : ID) :
    Recomputed ar v w item warehouse (net fromWh toWh ls item warehouse) := by
  induction ls generalizing v with
  | nil =>
    simp only [Prog.forEach, Prog.runs_ret] at h
    exact .inl ⟨by rw [h.1], by simp [net, moved_nil]⟩
  | cons l ls ih =>
    obtain ⟨u, hl, hls⟩ := Prog.runs_forEach_cons_ok.mp h
    rw [net_cons]
    exact (transferItem_stock hl item warehouse).trans (ih hls)

/-- What the two ends of a transfer have gained, the shared end of a transfer within one
warehouse counted once. -/
def endsGain (v w : Db) (fromWh toWh item : ID) : ℤ :=
  (w.stock item fromWh - v.stock item fromWh) +
    if fromWh = toWh then 0 else w.stock item toWh - v.stock item toWh

/-- The total of an item changes by what its two ends have gained. -/
theorem transferItem_total {l : StockTransferItem}
    (h : (transferItem ar id fromWh toWh l).Runs v w (.ok ())) (item : ID) :
    w.total item = v.total item + endsGain v w fromWh toWh item := by
  obtain ⟨u, hout, hin⟩ := transferItem_posts h
  have h₁ := hout.total rfl item
  have h₂ := hin.total rfl item
  have hf := hout.stock item fromWh
  have ht := hout.stock item toWh
  have hf' := hin.stock item fromWh
  have ht' := hin.stock item toWh
  simp only [InventoryLedger.transferOutCommand, InventoryLedger.transferInCommand,
    Prod.mk.injEq] at h₁ h₂ hf ht hf' ht'
  unfold endsGain
  by_cases hi : l.itemId = item
  · subst hi
    by_cases he : fromWh = toWh
    · subst he
      simp only [and_self, if_true] at h₁ h₂ hf ht hf' ht' ⊢
      omega
    · simp only [true_and, he, Ne.symm he, if_true, if_false] at h₁ h₂ hf ht hf' ht' ⊢
      omega
  · simp only [hi, Ne.symm hi, false_and, if_false] at h₁ h₂ hf ht hf' ht'
    split <;> omega

theorem transferItems_total {ls : List StockTransferItem}
    (h : (Prog.forEach ls (transferItem ar id fromWh toWh)).Runs v w (.ok ())) (item : ID) :
    w.total item = v.total item + endsGain v w fromWh toWh item := by
  induction ls generalizing v with
  | nil =>
    simp only [Prog.forEach, Prog.runs_ret] at h
    simp [endsGain, h.1]
  | cons l ls ih =>
    obtain ⟨u, hl, hls⟩ := Prog.runs_forEach_cons_ok.mp h
    have h₁ := transferItem_total hl item
    have h₂ := ih hls
    unfold endsGain at h₁ h₂ ⊢
    split at h₁ <;> simp_all <;> omega

end Loop

/-! ## A whole approval -/

section Approval

variable {ar : Arith} {v w : Db}

/-- An approval that goes through runs the line loop between the warehouses of a submitted
transfer, and moves stock nowhere else. -/
theorem execute_runs_ok {ctx : Operator} {id : ID}
    (h : (execute ar ctx id).Runs v w (.ok ())) :
    ∃ t u u', v.stockTransfers.get? id = some t ∧ t.status = 1 ∧
      u.inventories = v.inventories ∧
      (Prog.forEach (items id v) (transferItem ar id t.fromWarehouseId t.toWarehouseId)).Runs
        u u' (.ok ()) ∧
      w.inventories = u'.inventories := by
  simp only [execute, Prog.runs_bind_ok, lockTransfer_runs, Prog.runs_select] at h
  obtain ⟨_, t, ⟨rfl, ht⟩, u, ends, happ, _, lines, ⟨rfl, hlines⟩, u', _, hloop, hrec⟩ := h
  obtain ⟨t', ht', hstatus, rfl, ts, rfl⟩ := approve_runs happ
  obtain rfl : t' = t := Option.some.inj (ht'.symm.trans ht)
  obtain rfl : lines = items id _ := Except.ok.inj hlines
  simp only [recordApproval, Prog.runs_bind_ok, Prog.runs_select, Prog.runs_orFail_ok] at hrec
  obtain ⟨_, row, ⟨rfl, -⟩, _, after, ⟨rfl, -⟩, hrec⟩ := hrec
  obtain ⟨-, audit, rfl⟩ := AuditService.record_runs hrec
  refine ⟨t', _, _, ht, hstatus, ?_, hloop, rfl⟩
  rfl

theorem stock_congr {v w : Db} (h : w.inventories = v.inventories) (item warehouse : ID) :
    w.stock item warehouse = v.stock item warehouse := by
  rw [Db.stock, Db.quantity?, h, Db.stock, Db.quantity?]

theorem total_congr {v w : Db} (h : w.inventories = v.inventories) (item : ID) :
    w.total item = v.total item := by
  rw [Db.total, h, Db.total]

/-- What a gain of both ends amounts to when each end gained its net quantity. -/
theorem endsGain_eq_zero {fromWh toWh item : ID} {lines : List StockTransferItem}
    (h : ∀ wh, w.stock item wh = v.stock item wh + net fromWh toWh lines item wh) :
    endsGain v w fromWh toWh item = 0 := by
  unfold endsGain
  rw [h fromWh, h toWh]
  by_cases he : fromWh = toWh
  · subst he
    simp [net_same]
  · have := net_ends he lines item
    rw [if_neg he]
    omega

/-- As machine words, both ends together have gained nothing. -/
theorem norm_endsGain {fromWh toWh item : ID} {lines : List StockTransferItem}
    (h : ∀ wh, Recomputed ar v w item wh (net fromWh toWh lines item wh)) (x : ℤ) :
    ar.norm (x + endsGain v w fromWh toWh item) = ar.norm x := by
  have hn : ∀ wh, ar.norm (w.stock item wh) =
      ar.norm (v.stock item wh + net fromWh toWh lines item wh) := fun wh => (h wh).norm
  unfold endsGain
  by_cases he : fromWh = toWh
  · subst he
    have hf := hn fromWh
    rw [net_same, add_zero] at hf
    rw [if_pos rfl]
    calc ar.norm (x + (w.stock item fromWh - v.stock item fromWh + 0))
        = ar.norm (w.stock item fromWh + (x - v.stock item fromWh)) := by congr 1; omega
      _ = ar.norm (v.stock item fromWh + (x - v.stock item fromWh)) := Arith.norm_add_congr _ hf
      _ = ar.norm x := by congr 1; omega
  · have hends := net_ends he lines item
    rw [if_neg he]
    calc ar.norm (x + (w.stock item fromWh - v.stock item fromWh +
            (w.stock item toWh - v.stock item toWh)))
        = ar.norm (w.stock item fromWh +
            (x - v.stock item fromWh + w.stock item toWh - v.stock item toWh)) := by
          congr 1; omega
      _ = ar.norm (v.stock item fromWh + net fromWh toWh lines item fromWh +
            (x - v.stock item fromWh + w.stock item toWh - v.stock item toWh)) :=
          Arith.norm_add_congr _ (hn fromWh)
      _ = ar.norm (w.stock item toWh +
            (net fromWh toWh lines item fromWh + x - v.stock item toWh)) := by congr 1; omega
      _ = ar.norm (v.stock item toWh + net fromWh toWh lines item toWh +
            (net fromWh toWh lines item fromWh + x - v.stock item toWh)) :=
          Arith.norm_add_congr _ (hn toWh)
      _ = ar.norm x := by congr 1; omega

/-- An approval, in any machine arithmetic: if it fails nothing has changed, and if it goes
through, each stock has gained its net quantity and each total is what it was, as machine
words; and they are exactly so for each item whose new stocks all fit in the word. -/
theorem approve_conserves {ctx : Operator} {id : ID} {r : Except AppError Unit}
    (h : (execute ar ctx id).Transacts v w r) :
    (∀ e, r = .error e → w = v) ∧
    (r = .ok () → ∃ t, v.stockTransfers.get? id = some t ∧ ∀ item,
      ar.norm (w.total item) = ar.norm (v.total item) ∧
      (∀ wh, ar.norm (w.stock item wh) = ar.norm (v.stock item wh +
        net t.fromWarehouseId t.toWarehouseId (items id v) item wh)) ∧
      ((∀ wh, ar.Fits (v.stock item wh +
          net t.fromWarehouseId t.toWarehouseId (items id v) item wh)) →
        w.total item = v.total item ∧
        ∀ wh, w.stock item wh = v.stock item wh +
          net t.fromWarehouseId t.toWarehouseId (items id v) item wh)) := by
  refine ⟨fun e he => ?_, fun hok => ?_⟩
  · subst he
    exact h.of_error
  · subst hok
    obtain ⟨t, u, u', ht, -, hu, hloop, hw⟩ := execute_runs_ok (Prog.transacts_ok.mp h)
    refine ⟨t, ht, fun item => ?_⟩
    have hstock : ∀ wh, Recomputed ar v w item wh
        (net t.fromWarehouseId t.toWarehouseId (items id v) item wh) := by
      intro wh
      have := transferItems_stock hloop item wh
      rwa [Recomputed, stock_congr hu, ← stock_congr hw] at this
    have htotal : w.total item =
        v.total item + endsGain v w t.fromWarehouseId t.toWarehouseId item := by
      have := transferItems_total hloop item
      rw [endsGain, ← stock_congr hw, ← stock_congr hw, stock_congr hu, stock_congr hu,
        total_congr hu, ← total_congr hw] at this
      exact this
    refine ⟨?_, fun wh => (hstock wh).norm, fun hfits => ?_⟩
    · rw [htotal]
      exact norm_endsGain hstock _
    · have hexact := fun wh => (hstock wh).of_fits (hfits wh)
      refine ⟨?_, hexact⟩
      rw [htotal, endsGain_eq_zero hexact, add_zero]

end Approval

/-- One unit on its way to a warehouse that is `room` units short of the largest word. -/
def crowded (room : ℤ) : Db :=
  { Db.empty with
    inventories := ⟨[⟨1, 7, 1, 5, 0, 1⟩, ⟨2, 7, 2, 2 ^ 63 - 1 - room, 0, 1⟩], by
      simp [Inventory.key]⟩
    stockTransfers := ⟨[⟨9, "TR-1", 1, 2, 1, 0, none, none⟩], by decide⟩
    stockTransferItems := ⟨[⟨11, 9, 7, 1⟩], by decide⟩ }

/-- With no room left the target wraps around, and the total of the item with it. -/
theorem approve_wraps :
    let p := (execute .i64 ⟨3, none, none⟩ 9).transact (numbered 100) (crowded 0)
    p.2 = .ok () ∧ p.1.stock 7 2 = -2 ^ 63 ∧ p.1.total 7 ≠ (crowded 0).total 7 := by
  refine ⟨rfl, ?_, ?_⟩ <;> decide

theorem approve_conserves_crowded :
    let p := (execute .i64 ⟨3, none, none⟩ 9).transact (numbered 100) (crowded 1)
    p.2 = .ok () ∧ Arith.i64.norm (p.1.total 7) = Arith.i64.norm ((crowded 1).total 7) := by
  refine ⟨rfl, ?_⟩
  obtain ⟨t, -, ht⟩ := (approve_conserves
    (Prog.transact_transacts (numbered 100) (execute .i64 ⟨3, none, none⟩ 9) (crowded 1))).2 rfl
  exact (ht 7).1

end StockTransferApprove

end Slab
