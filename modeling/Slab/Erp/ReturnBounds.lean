import Slab.Erp.Requests

/-!
# Purchase returns and the receipts they return

Neither the creation nor the approval of a return looks at what has been received, or at
whose receipt lines are returned. The bounds hold along the runs in which the requests keep
to them.

## Main definitions

- `Db.ReturnsBounded` — an order line has returned no more than it has received
- `Db.ReturnsOwn` — approved returns are of receipt lines of their own order
- `Request.KeepsBounds` — what would have to be checked before a request is carried out

## Main results

- `returns_bounded_of_serves` — both hold along the runs of such requests
- `overReturn_approved` — a return of more than was received
-/

namespace Slab

open Txn

/-- The order whose receipt has the line. -/
def Db.orderOf (db : Db) (receiptLineId : ID) : Option ID :=
  (db.purchaseReceiptLines.get? receiptLineId).bind fun l =>
    (db.purchaseReceipts.get? l.receiptId).map PurchaseReceipt.orderId

/-- The lines of the return are of receipts of the order. -/
def Db.OwnLines (db : Db) (orderId returnId : ID) : Prop :=
  ∀ l ∈ db.purchaseReturnLines.rows, l.returnId = returnId →
    db.orderOf l.receiptLineId = some orderId

def Db.ReturnsBounded (db : Db) : Prop :=
  ∀ l ∈ db.purchaseOrderLines.rows, 0 ≤ l.returnedQty ∧ l.returnedQty ≤ l.receivedQty

def Db.ReturnsOwn (db : Db) : Prop :=
  ∀ ret ∈ db.purchaseReturns.rows, ret.status = PurchaseReturnStatus.approved.toI16 →
    db.OwnLines ret.orderId ret.id

/-- The purchase requests. -/
def Request.isPurchase : Request → Bool
  | receipt _ _ => true
  | createReturn _ _ => true
  | submitReturn _ => true
  | approveReturn _ _ => true
  | _ => false

/-- A receipt does not take back what has been returned already; an approval returns receipt
lines of the return's own order only, and of each order line no more than is left. -/
def Request.KeepsBounds (ar : Arith) (r : Request) (db : Db) : Prop :=
  match r with
  | receipt _ _ => ∀ l ∈ db.purchaseOrderLines.rows,
    l.returnedQty ≤ ar.addAll l.receivedQty (amounts (.received l.id) (r.movements db))
  | approveReturn _ id =>
    (∀ l ∈ db.purchaseOrderLines.rows,
      0 ≤ ar.addAll l.returnedQty (amounts (.returned l.id) (r.movements db)) ∧
      ar.addAll l.returnedQty (amounts (.returned l.id) (r.movements db)) ≤ l.receivedQty) ∧
    ∀ ret ∈ db.purchaseReturns.get? id, db.OwnLines ret.orderId id
  | _ => True

instance (db : Db) (orderId returnId : ID) : Decidable (db.OwnLines orderId returnId) :=
  inferInstanceAs (Decidable (∀ l ∈ db.purchaseReturnLines.rows,
    l.returnId = returnId → db.orderOf l.receiptLineId = some orderId))

instance (ar : Arith) (r : Request) (db : Db) : Decidable (r.KeepsBounds ar db) :=
  match r with
  | .receipt ctx request => inferInstanceAs (Decidable (∀ l ∈ db.purchaseOrderLines.rows,
      l.returnedQty ≤ ar.addAll l.receivedQty
        (amounts (.received l.id) (Request.movements db (.receipt ctx request)))))
  | .approveReturn ctx id => inferInstanceAs (Decidable ((∀ l ∈ db.purchaseOrderLines.rows,
      0 ≤ ar.addAll l.returnedQty
          (amounts (.returned l.id) (Request.movements db (.approveReturn ctx id))) ∧
        ar.addAll l.returnedQty
          (amounts (.returned l.id) (Request.movements db (.approveReturn ctx id))) ≤
            l.receivedQty) ∧
      ∀ ret ∈ db.purchaseReturns.get? id, db.OwnLines ret.orderId id))
  | .delivery _ _ => isTrue trivial
  | .pick _ _ _ => isTrue trivial
  | .createReturn _ _ => isTrue trivial
  | .submitReturn _ => isTrue trivial
  | .approveTransfer _ _ => isTrue trivial
  | .productionReceipt _ _ => isTrue trivial

variable {ar : Arith} {v w : Db}

/-! ## Receipts only grow -/

/-- Receipts and their lines stay. -/
structure Db.ReceiptsStay (v w : Db) : Prop where
  lines : ∀ id l, v.purchaseReceiptLines.get? id = some l → w.purchaseReceiptLines.get? id = some l
  headers : ∀ id r, v.purchaseReceipts.get? id = some r → w.purchaseReceipts.get? id = some r

theorem Db.ReceiptsStay.trans {u : Db} (h : v.ReceiptsStay u) (h' : u.ReceiptsStay w) :
    v.ReceiptsStay w :=
  ⟨fun id l hl => h'.lines id l (h.lines id l hl),
    fun id r hr => h'.headers id r (h.headers id r hr)⟩

theorem Db.ReceiptsStay.of_eq (hl : w.purchaseReceiptLines = v.purchaseReceiptLines)
    (hh : w.purchaseReceipts = v.purchaseReceipts) : v.ReceiptsStay w :=
  ⟨fun id l h => by rw [hl, h], fun id r h => by rw [hh, h]⟩

theorem Db.ReceiptsStay.orderOf (h : v.ReceiptsStay w) {receiptLineId orderId : ID}
    (ho : v.orderOf receiptLineId = some orderId) : w.orderOf receiptLineId = some orderId := by
  obtain ⟨l, hl, horder⟩ := Option.bind_eq_some_iff.mp ho
  obtain ⟨receipt, hreceipt, rfl⟩ := Option.map_eq_some_iff.mp horder
  refine Option.bind_eq_some_iff.mpr ⟨l, h.lines _ _ hl, ?_⟩
  rw [h.headers _ _ hreceipt, Option.map_some]

/-! ## The bound -/

/-- What a request does to the counters of an order line. -/
theorem Effect.orderLine {ms : List Movement} {rows : List InventoryTransaction}
    (h : Effect ar ms v rows w) {l : PurchaseOrderLine} (hl : l ∈ w.purchaseOrderLines.rows) :
    ∃ l₀ ∈ v.purchaseOrderLines.rows, l₀.id = l.id ∧
      l.receivedQty = ar.addAll l₀.receivedQty (amounts (.received l.id) ms) ∧
      l.returnedQty = ar.addAll l₀.returnedQty (amounts (.returned l.id) ms) := by
  have hreceived := h.counted.counter (.received l.id)
  have hreturned := h.counted.counter (.returned l.id)
  simp only [Db.counter, Table.get?_of_mem hl, Option.map_some, Option.map_map]
    at hreceived hreturned
  obtain ⟨l₀, hl₀, hreceived⟩ := Option.map_eq_some_iff.mp hreceived.symm
  rw [hl₀, Option.map_some, Option.some.injEq] at hreturned
  obtain ⟨hmem, hid⟩ := Table.get?_eq_some.mp hl₀
  exact ⟨l₀, hmem, hid, hreceived.symm, hreturned⟩

theorem Request.bounded {r : Request} (hr : (r.run ar).Runs v w (.ok ()))
    (hkind : r.isPurchase = true) (hkeeps : r.KeepsBounds ar v) (hv : v.ReturnsBounded) :
    w.ReturnsBounded := by
  obtain ⟨rows, heffect⟩ := r.effect hr
  intro l hl
  obtain ⟨l₀, hl₀, hid, hreceived, hreturned⟩ := heffect.orderLine hl
  obtain ⟨hpos, hle⟩ := hv l₀ hl₀
  rw [hreceived, hreturned]
  cases r with
  | receipt ctx request =>
    have hnone : amounts (.returned l.id) (Request.movements v (.receipt ctx request)) = [] := by
      refine amounts_eq_nil fun m hm hc => ?_
      obtain ⟨line, -, hline⟩ := List.mem_flatMap.mp hm
      rw [List.mem_singleton.mp hline] at hc
      cases hc
    rw [hnone, Arith.addAll_nil, ← hid]
    exact ⟨hpos, hkeeps l₀ hl₀⟩
  | approveReturn ctx id =>
    have hnone : amounts (.received l.id) (Request.movements v (.approveReturn ctx id)) = [] := by
      refine amounts_eq_nil fun m hm hc => ?_
      obtain ⟨line, -, hline⟩ := List.mem_flatMap.mp hm
      rw [List.mem_singleton.mp hline] at hc
      cases hc
    rw [hnone, Arith.addAll_nil, ← hid]
    exact hkeeps.1 l₀ hl₀
  | createReturn ctx request => exact ⟨hpos, hle⟩
  | submitReturn id => exact ⟨hpos, hle⟩
  | _ => cases hkind

/-! ## Whose lines are returned -/

/-- Where returns and their lines stay as they are, growing receipts change nothing. -/
theorem Db.ReturnsOwn.of_stay (h : v.ReturnsOwn) (hstay : v.ReceiptsStay w)
    (hr : w.purchaseReturns = v.purchaseReturns)
    (hl : w.purchaseReturnLines = v.purchaseReturnLines) : w.ReturnsOwn := by
  intro ret hret hstatus l hline hid
  rw [hr] at hret
  rw [hl] at hline
  exact hstay.orderOf (h ret hret hstatus l hline hid)

/-- A change of status keeps the returns right, if the lines of a return that is approved by
it are of its own order. -/
theorem Db.ReturnsOwn.modify (h : v.ReturnsOwn) {id : ID}
    {f : PurchaseReturnRow → PurchaseReturnRow} (hf : ∀ r, (f r).id = r.id)
    (horder : ∀ r, (f r).orderId = r.orderId)
    (hown : ∀ ret, v.purchaseReturns.get? id = some ret →
      (f ret).status = PurchaseReturnStatus.approved.toI16 → v.OwnLines ret.orderId id)
    (hreturns : w.purchaseReturns = v.purchaseReturns.modify id f hf)
    (hlines : w.purchaseReturnLines = v.purchaseReturnLines) (hstay : v.ReceiptsStay w) :
    w.ReturnsOwn := by
  intro ret hret hstatus l hline hid
  rw [hlines] at hline
  rw [hreturns, Table.rows_modify] at hret
  obtain ⟨old, hold, rfl⟩ := List.mem_map.mp hret
  refine hstay.orderOf ?_
  by_cases hk : old.id = id
  · rw [if_pos hk] at hstatus hid ⊢
    rw [hf] at hid
    rw [horder]
    exact hown old (hk ▸ Table.get?_of_mem hold) hstatus l hline (hid.trans hk)
  · rw [if_neg hk] at hstatus hid ⊢
    exact h old hold hstatus l hline hid

/-- What a receipt does to the tables that returns refer to. -/
structure Db.OnlyReceives (v w : Db) : Prop where
  stay : v.ReceiptsStay w
  returns : w.purchaseReturns = v.purchaseReturns
  returnLines : w.purchaseReturnLines = v.purchaseReturnLines

theorem receiveLine_onlyReceives {orderId receiptId : ID}
    {line : PurchaseReceiptCreate.CreateReceiptLine}
    (h : (PurchaseReceiptCreate.receiveLine ar orderId receiptId line).Runs v w (.ok ())) :
    v.OnlyReceives w := by
  obtain ⟨lineId, ol, u, -, -, -, -, hreceive, hcosts⟩ :=
    PurchaseReceiptCreate.receiveLine_runs_ok ar h
  have hledger := (InventoryLedger.receive_preserves _).runs hreceive
  refine ⟨⟨fun id l hl => ?_, fun id r hr => ?_⟩, ?_, ?_⟩
  · have hlines : w.purchaseReceiptLines = v.purchaseReceiptLines.insert
        (PurchaseReceiptCreate.receiptLine lineId receiptId line) :=
      (congrArg Db.purchaseReceiptLines hcosts :).trans (congrArg Db.purchaseReceiptLines hledger :)
    rw [hlines]
    exact Table.get?_insert_of_some hl
  · have hheaders : w.purchaseReceipts = v.purchaseReceipts :=
      (congrArg Db.purchaseReceipts hcosts :).trans (congrArg Db.purchaseReceipts hledger :)
    rw [hheaders, hr]
  · exact (congrArg Db.purchaseReturns hcosts :).trans (congrArg Db.purchaseReturns hledger :)
  · exact (congrArg Db.purchaseReturnLines hcosts :).trans
      (congrArg Db.purchaseReturnLines hledger :)

theorem Db.OnlyReceives.trans {u : Db} (h : v.OnlyReceives u) (h' : u.OnlyReceives w) :
    v.OnlyReceives w :=
  ⟨h.stay.trans h'.stay, h'.returns.trans h.returns, h'.returnLines.trans h.returnLines⟩

theorem receipt_own {ctx : Operator} {request : PurchaseReceiptCreate.CreateReceiptRequest}
    (hr : ((Request.receipt ctx request).run ar).Runs v w (.ok ())) (hv : v.ReturnsOwn) :
    w.ReturnsOwn := by
  obtain ⟨response, h⟩ := Prog.runs_discard hr
  simp only [PurchaseReceiptCreate.execute, Prog.runs_bind_ok, Prog.pure_eq, Prog.runs_ret] at h
  obtain ⟨u, header, hheader, u', _, hlines, w', _, hrecord, rfl, -⟩ := h
  have hstart : v.OnlyReceives u := by
    obtain ⟨receipt, rfl⟩ := PurchaseReceiptCreate.createHeader_runs_ok hheader
    exact ⟨⟨fun _ _ h => h, fun _ _ h => Table.get?_insert_of_some h⟩, rfl, rfl⟩
  have hloop : v.OnlyReceives u' := Prog.runs_forEach_ok (P := v.OnlyReceives)
    (fun line _ x y hx hline => hx.trans (receiveLine_onlyReceives hline)) hstart hlines
  have haudit := (PurchaseReceiptCreate.recordHeader_preserves _ _).runs hrecord
  refine hv.of_stay (hloop.stay.trans (.of_eq ?_ ?_)) ?_ ?_
  · exact (congrArg Db.purchaseReceiptLines haudit :)
  · exact (congrArg Db.purchaseReceipts haudit :)
  · exact (congrArg Db.purchaseReturns haudit :).trans hloop.returns
  · exact (congrArg Db.purchaseReturnLines haudit :).trans hloop.returnLines

/-- What the lines of a new return do to the same tables. -/
structure Db.Drafts (v : Db) (returnId : ID) (w : Db) : Prop where
  lines : ∀ l ∈ w.purchaseReturnLines.rows,
    l ∈ v.purchaseReturnLines.rows ∨ l.returnId = returnId
  returns : w.purchaseReturns = v.purchaseReturns
  receiptLines : w.purchaseReceiptLines = v.purchaseReceiptLines
  receipts : w.purchaseReceipts = v.purchaseReceipts

theorem Db.Drafts.trans {u : Db} {returnId : ID} (h : v.Drafts returnId u)
    (h' : u.Drafts returnId w) : v.Drafts returnId w := by
  refine ⟨fun l hl => ?_, h'.returns.trans h.returns, h'.receiptLines.trans h.receiptLines,
    h'.receipts.trans h.receipts⟩
  rcases h'.lines l hl with hl | hl
  · exact h.lines l hl
  · exact .inr hl

theorem insertLine_drafts {returnId : ID} {line : PurchaseReturnCreate.CreateReturnLine}
    (h : (PurchaseReturnCreate.insertLine returnId line).Runs v w (.ok ())) :
    v.Drafts returnId w := by
  obtain ⟨lineId, -, -, rfl⟩ := PurchaseReturnCreate.insertLine_runs_ok h
  refine ⟨fun l hl => (Table.mem_rows_insert hl).imp_right fun he => ?_, rfl, rfl, rfl⟩
  rw [he]
  rfl

/-- A new return is a draft, and its lines are its own. -/
theorem createReturn_own {ctx : Operator} {request : PurchaseReturnCreate.CreateReturnRequest}
    (hr : ((Request.createReturn ctx request).run ar).Runs v w (.ok ())) (hv : v.ReturnsOwn) :
    w.ReturnsOwn := by
  obtain ⟨response, h⟩ := Prog.runs_discard hr
  simp only [PurchaseReturnCreate.execute, Prog.runs_bind_ok, Prog.pure_eq, Prog.runs_ret] at h
  obtain ⟨u, header, hheader, u', _, hlines, w', _, hrecord, rfl, -⟩ := h
  obtain ⟨new, hid, hdraft, hfresh, hu⟩ := PurchaseReturnCreate.createHeader_runs_ok hheader
  have hloop : u.Drafts header.id u' := Prog.runs_forEach_ok (P := u.Drafts header.id)
    (fun line _ x y hx hline => hx.trans (insertLine_drafts hline))
    ⟨fun _ hl => .inl hl, rfl, rfl, rfl⟩ hlines
  have haudit := (PurchaseReturnCreate.recordHeader_preserves _ _).runs hrecord
  subst hu
  have hreturns : w.purchaseReturns = v.purchaseReturns.insert new :=
    (congrArg Db.purchaseReturns haudit :).trans hloop.returns
  have hlines' : w.purchaseReturnLines = u'.purchaseReturnLines :=
    (congrArg Db.purchaseReturnLines haudit :)
  have hstay : v.ReceiptsStay w := .of_eq
    ((congrArg Db.purchaseReceiptLines haudit :).trans hloop.receiptLines)
    ((congrArg Db.purchaseReceipts haudit :).trans hloop.receipts)
  intro ret hret hstatus l hl hlid
  rw [hreturns, Table.rows_insert hfresh] at hret
  rw [hlines'] at hl
  rcases List.mem_append.mp hret with hret | hret
  · -- an old return: the new lines are not its
    have hne : ret.id ≠ new.id := Table.get?_eq_none.mp hfresh ret hret
    rcases hloop.lines l hl with hl | hl
    · exact hstay.orderOf (hv ret hret hstatus l hl hlid)
    · exact absurd (hlid.symm.trans (hl.trans hid.symm)) hne
  · rw [List.mem_singleton.mp hret, hdraft] at hstatus
    cases hstatus

theorem submitReturn_own {id : ID} (hr : ((Request.submitReturn id).run ar).Runs v w (.ok ()))
    (hv : v.ReturnsOwn) : w.ReturnsOwn := by
  obtain rfl := PurchaseReturnApprove.submitExecute_runs_ok hr
  refine hv.modify (PurchaseReturnRow.setStatus_id 1) (fun _ => rfl) (fun ret _ hstatus => ?_) rfl
    rfl (.of_eq rfl rfl)
  cases hstatus

/-- The tables that say whose lines are returned. -/
def returnTables (db : Db) : Table PurchaseReceipt.id × Table PurchaseReceiptLine.id ×
    (Table fun r : PurchaseReturnRow => r.id) × Table PurchaseReturnLine.id :=
  (db.purchaseReceipts, db.purchaseReceiptLines, db.purchaseReturns, db.purchaseReturnLines)

theorem returnLine_preserves (ar : Arith) (line : PurchaseReturnApprove.JoinedLine) :
    (PurchaseReturnApprove.returnLine ar line).Preserves returnTables := by
  refine ((InventoryLedger.forceIssue_preserves _).factor (by intro _; rfl)).bind fun _ => ?_
  exact Prog.preserves_writeIf (by intro _; rfl)

theorem approveReturn_own {ctx : Operator} {id : ID}
    (hr : ((Request.approveReturn ctx id).run ar).Runs v w (.ok ()))
    (hown : ∀ ret, v.purchaseReturns.get? id = some ret → v.OwnLines ret.orderId id)
    (hv : v.ReturnsOwn) : w.ReturnsOwn := by
  simp only [Request.run, PurchaseReturnApprove.approveExecute, Prog.runs_bind_ok,
    Prog.runs_select] at hr
  obtain ⟨_, _, hheader, u, lines, ⟨rfl, -⟩, hloop⟩ := hr
  obtain ⟨now, logs, rfl⟩ := PurchaseReturnApprove.approveHeader_runs_ok hheader
  have hsame := (Prog.preserves_forEach fun line _ => returnLine_preserves ar line).runs hloop
  obtain ⟨hreceipts, hrest⟩ := Prod.mk.inj hsame
  obtain ⟨hreceiptLines, hrest⟩ := Prod.mk.inj hrest
  obtain ⟨hreturns, hlines⟩ := Prod.mk.inj hrest
  exact hv.modify (PurchaseReturnRow.approve_id 3 now) (fun _ => rfl)
    (fun ret hret _ => hown ret hret) hreturns hlines (.of_eq hreceiptLines hreceipts)

theorem Request.own {r : Request} (hr : (r.run ar).Runs v w (.ok ()))
    (hkind : r.isPurchase = true)
    (hkeeps : r.KeepsBounds ar v) (hv : v.ReturnsOwn) : w.ReturnsOwn := by
  cases r with
  | receipt ctx request => exact receipt_own hr hv
  | createReturn ctx request => exact createReturn_own hr hv
  | submitReturn id => exact submitReturn_own hr hv
  | approveReturn ctx id => exact approveReturn_own hr hkeeps.2 hv
  | _ => cases hkind

/-! ## Runs -/

/-- Along every run of purchase requests that keep to the bounds, each order line has returned
no more than it has received, and every approved return is of receipt lines of its own order. -/
theorem returns_bounded_of_serves {xs : List Serving} (h : Serves ar v xs w)
    (hkind : ∀ x ∈ xs, x.request.isPurchase = true)
    (hkeeps : ∀ x ∈ xs, x.result = .ok () → x.request.KeepsBounds ar x.found)
    (hbounded : v.ReturnsBounded) (hown : v.ReturnsOwn) : w.ReturnsBounded ∧ w.ReturnsOwn := by
  refine h.induction (P := fun db => db.ReturnsBounded ∧ db.ReturnsOwn)
    (fun x hx htransacts hfound => ?_) ⟨hbounded, hown⟩
  obtain ⟨request, found, left, result⟩ := x
  cases result with
  | ok u =>
    have hruns := Prog.transacts_ok.mp htransacts
    have hkeep := hkeeps _ hx rfl
    exact ⟨Request.bounded hruns (hkind _ hx) hkeep hfound.1,
      Request.own hruns (hkind _ hx) hkeep hfound.2⟩
  | error e =>
    obtain rfl : left = found := htransacts.of_error
    exact hfound

/-- Six units are received; the return of `quantity` units of them is approved. -/
def returnOf (quantity : ℤ) : List Request :=
  [.receipt ⟨1, none, none⟩ ⟨20, none, none, [⟨21, 8, 1, 6, none, 100⟩]⟩,
    .createReturn ⟨1, none, none⟩ ⟨20, none, [⟨104, 8, quantity, none⟩]⟩, .submitReturn 202,
    .approveReturn ⟨1, none, none⟩ 202]

instance (db : Db) : Decidable db.ReturnsBounded :=
  inferInstanceAs (Decidable (∀ l ∈ db.purchaseOrderLines.rows,
    0 ≤ l.returnedQty ∧ l.returnedQty ≤ l.receivedQty))

/-- Seven units of six are returned. -/
theorem overReturn_approved :
    ∃ xs w, Serves .i64 openOrders xs w ∧ (∀ x ∈ xs, x.request.isPurchase = true) ∧
      openOrders.ReturnsBounded ∧ ¬ w.ReturnsBounded :=
  ⟨_, _, serve_serves .i64 (numbered 100) openOrders (returnOf 7), by decide +kernel,
    by decide, by decide +kernel⟩

theorem returns_bounded_of_serves_returnOf :
    ∃ xs w, Serves .i64 openOrders xs w ∧ w.counter (.returned 21) = some 4 ∧
      w.ReturnsBounded ∧ w.ReturnsOwn := by
  have hrun := serve_serves .i64 (numbered 100) openOrders (returnOf 4)
  have hkind : ∀ x ∈ (serve .i64 (numbered 100) openOrders (returnOf 4)).1,
      x.request.isPurchase = true := by
    decide +kernel
  have hkeeps : ∀ x ∈ (serve .i64 (numbered 100) openOrders (returnOf 4)).1,
      x.request.KeepsBounds .i64 x.found := by
    decide +kernel
  have hreturned : (serve .i64 (numbered 100) openOrders (returnOf 4)).2.counter (.returned 21) =
      some 4 := by
    decide +kernel
  generalize serve .i64 (numbered 100) openOrders (returnOf 4) = p at hrun hkind hkeeps hreturned
  have hown : openOrders.ReturnsOwn := fun ret hret => by cases hret
  exact ⟨p.1, p.2, hrun, hreturned, returns_bounded_of_serves hrun hkind
    (fun x hx _ => hkeeps x hx) (by decide) hown⟩

end Slab
