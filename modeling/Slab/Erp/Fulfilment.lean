import Slab.Erp.Sales
import Slab.Erp.Purchase
import Slab.Txn.Guard

/-!
# Fulfilment counters

Sales deliveries and purchase receipts, interleaved statement by statement. An order line is
locked from the moment a request reads its counter until the request ends, so counter,
document lines and `closed` move together.

## Main definitions

- `Progress.Agrees` — a counter agrees with its document lines
- `Db.Fulfilled` — every order line's counter does
- `FulfilmentRequest.run` — the two handlers as transactions
- `orderGuard` — what the row of an order line guards

## Main results

- `deliverLine_safe`, `receiveLine_safe` — one line of a request, among other requests
- `fulfilled_of_run` — the counters along every run, and what a rejected request leaves behind
-/

namespace Slab

open Txn

/-- The columns of an order line that its fulfilment moves. -/
structure Progress where
  quantity : ℤ
  done : ℤ
  closed : Bool

/-- The counter is the sum `n` of the document lines, within the ordered quantity, and the
line is closed when it is reached. -/
def Progress.Agrees (p : Progress) (n : ℤ) : Prop :=
  0 < p.quantity → p.done = n ∧ p.done ≤ p.quantity ∧ (p.closed = true ↔ p.done ≥ p.quantity)

/-- The columns after the counter has been set to `new`. -/
def Progress.advance (new : ℤ) (p : Progress) : Progress :=
  ⟨p.quantity, new, decide (new ≥ p.quantity)⟩

def SalesOrderLine.progress (l : SalesOrderLine) : Progress :=
  ⟨l.quantity, l.deliveredQty, l.closed⟩

def PurchaseOrderLine.progress (l : PurchaseOrderLine) : Progress :=
  ⟨l.quantity, l.receivedQty, l.closed⟩

namespace Db

/-- The sum of the delivery lines that reference an order line. -/
def delivered (db : Db) (orderLineId : ID) : ℤ :=
  db.salesDeliveryLines.tally (fun l => l.orderLineId = orderLineId) SalesDeliveryLine.quantity

/-- The sum of the receipt lines that reference an order line. -/
def received (db : Db) (orderLineId : ID) : ℤ :=
  db.purchaseReceiptLines.tally (fun l => l.orderLineId = orderLineId) PurchaseReceiptLine.quantity

structure Fulfilled (db : Db) : Prop where
  sales : ∀ l ∈ db.salesOrderLines.rows, l.progress.Agrees (db.delivered l.id)
  purchase : ∀ l ∈ db.purchaseOrderLines.rows, l.progress.Agrees (db.received l.id)

end Db

inductive FulfilmentRequest where
  | delivery (ctx : Operator) (request : SalesDeliveryCreate.CreateDeliveryRequest)
  | receipt (ctx : Operator) (request : PurchaseReceiptCreate.CreateReceiptRequest)

/-- The transaction of a request; its result is the document's identifier and code. -/
def FulfilmentRequest.run : FulfilmentRequest → Handler (ID × String)
  | delivery ctx request => do
    let response ← SalesDeliveryCreate.execute .exact ctx request
    pure (response.id, response.code)
  | receipt ctx request => do
    let response ← PurchaseReceiptCreate.execute .exact ctx request
    pure (response.id, response.code)

/-- What one row guards: an order line with the sum of its document lines, or the presence
of a document line. -/
inductive Part where
  | orderLine (progress : Option Progress) (documented : ℤ)
  | documentLine (present : Bool)
  | other

def orderPart (db : Db) : Key → Part
  | .row .salesOrderLines id =>
    .orderLine ((db.salesOrderLines.get? id).map SalesOrderLine.progress) (db.delivered id)
  | .row .purchaseOrderLines id =>
    .orderLine ((db.purchaseOrderLines.get? id).map PurchaseOrderLine.progress) (db.received id)
  | .row .salesDeliveryLines id => .documentLine (db.salesDeliveryLines.has id)
  | .row .purchaseReceiptLines id => .documentLine (db.purchaseReceiptLines.has id)
  | _ => .other

/-- The part is as it has to be when nobody owns it. -/
def Part.Whole : Part → Prop
  | .orderLine (some p) n => p.Agrees n
  | _ => True

/-- An order line's row guards its counter and its document lines. -/
def orderGuard : Guard Db Key Part FulfilmentRequest Answer where
  proj k db := orderPart db k
  about _ _ := false
  inv _ part _ := part.Whole
  moves _ _ _ := True
  moves_refl _ _ := trivial
  moves_trans _ _ _ _ _ _ := trivial
  pre _ _ _ := True
  assumes _ _ _ _ := True

/-! ## The guarded tables -/

/-- The tables that the guard looks at. -/
def orderTables (db : Db) : Table SalesOrderLine.id × Table SalesDeliveryLine.id ×
    Table PurchaseOrderLine.id × Table PurchaseReceiptLine.id :=
  (db.salesOrderLines, db.salesDeliveryLines, db.purchaseOrderLines, db.purchaseReceiptLines)

theorem orderPart_congr {x y : Db} (h : orderTables x = orderTables y) (k : Key) :
    orderPart x k = orderPart y k := by
  obtain ⟨h₁, h⟩ := Prod.mk.inj h
  obtain ⟨h₂, h⟩ := Prod.mk.inj h
  obtain ⟨h₃, h₄⟩ := Prod.mk.inj h
  unfold orderPart Db.delivered Db.received
  rw [h₁, h₂, h₃, h₄]

/-- A program that leaves the guarded tables alone is neutral. -/
theorem neutral_of_preserves {α : Type} {p : Handler α} (hp : p.Preserves orderTables) :
    orderGuard.Neutral p :=
  .of_preserves hp (fun k _ _ h => orderPart_congr h k) (fun _ _ _ => rfl) fun _ _ _ => trivial

theorem neutral_of_documents {α : Type} {p : Handler α} (hp : p.Preserves Db.withoutDocuments) :
    orderGuard.Neutral p :=
  neutral_of_preserves (hp.factor (by intro _; rfl))

variable {r : FulfilmentRequest}

/-! ## One line of a request -/

/-- What a transaction knows between two lines: it has restored all it owns. -/
def Restored (own : List Key) (v : Db) : Prop := ∀ k ∈ own, (orderPart v k).Whole

/-- The others keep what they do not find locked whole, and do not touch the rest. -/
theorem Restored.whole {own : List Key} {v v' : Db}
    {tr tr' : List (Event FulfilmentRequest Answer)} (h : Restored own v)
    (hr : orderGuard.Rely own v tr v' tr') (k : Key) : (orderPart v' k).Whole := by
  by_cases hk : k ∈ own
  · have hp : orderPart v' k = orderPart v k := (hr.kept k hk).1
    rw [hp]
    exact h k hk
  · exact hr.rest k hk

/-- Neutral programs keep what is restored. -/
theorem neutral_safe {α : Type} {p : Handler α} (hp : orderGuard.Neutral p) {own : List Key}
    {v : Db} {tr : List (Event FulfilmentRequest Answer)} (h : Restored own v) :
    orderGuard.Safe r (fun _ own v _ => Restored own v) p own v tr :=
  hp.safe fun _ _ _ _ _ hkept hrest k _ => h.whole ⟨hkept, hrest⟩ k

/-- What the two writes of a line do to the guarded parts: the document line goes to the sum
of the order line, and the new counter to its row. -/
structure LineWrites (orderKey : Key) (docKey : ID → Key) (q : ℤ)
    (refusal : ID → Db → Option AppError) (insertDoc : ID → Db → Db) (update : ℤ → Db → Db) :
    Prop where
  order_part : ∀ x, ∃ p n, orderPart x orderKey = .orderLine p n
  doc_part : ∀ id x, ∃ b, orderPart x (docKey id) = .documentLine b
  accepted : ∀ id x, refusal id x = none → orderPart x (docKey id) = .documentLine false
  insert_other : ∀ id x k, k ≠ orderKey → k ≠ docKey id →
    orderPart (insertDoc id x) k = orderPart x k
  insert_order : ∀ id x p n b, orderPart x orderKey = .orderLine p n →
    orderPart x (docKey id) = .documentLine b →
    orderPart (insertDoc id x) orderKey = .orderLine p (n + if b then 0 else q)
  insert_doc : ∀ id x, orderPart (insertDoc id x) (docKey id) = .documentLine true
  update_other : ∀ new x k, k ≠ orderKey → orderPart (update new x) k = orderPart x k
  update_order : ∀ new x p n, orderPart x orderKey = .orderLine p n →
    orderPart (update new x) orderKey = .orderLine (p.map (Progress.advance new)) n

namespace LineWrites

variable {orderKey : Key} {docKey : ID → Key} {q : ℤ} {refusal : ID → Db → Option AppError}
  {insertDoc : ID → Db → Db} {update : ℤ → Db → Db} {own : List Key}

theorem insert_frame (hw : LineWrites orderKey docKey q refusal insertDoc update) (id : ID)
    (horder : orderKey ∈ own) (hdoc : docKey id ∈ own) : orderGuard.Frame own (insertDoc id) := by
  refine ⟨fun k hk x => ?_, fun x y hxy k hk => ?_⟩
  · exact hw.insert_other id x k (fun he => hk (he ▸ horder)) fun he => hk (he ▸ hdoc)
  · have hxo : orderPart x orderKey = orderPart y orderKey := hxy _ horder
    have hxd : orderPart x (docKey id) = orderPart y (docKey id) := hxy _ hdoc
    show orderPart (insertDoc id x) k = orderPart (insertDoc id y) k
    by_cases hk₁ : k = orderKey
    · obtain ⟨p, n, hp⟩ := hw.order_part x
      obtain ⟨b, hb⟩ := hw.doc_part id x
      rw [hk₁, hw.insert_order id x p n b hp hb,
        hw.insert_order id y p n b (hxo ▸ hp) (hxd ▸ hb)]
    · by_cases hk₂ : k = docKey id
      · rw [hk₂, hw.insert_doc, hw.insert_doc]
      · rw [hw.insert_other id x k hk₁ hk₂, hw.insert_other id y k hk₁ hk₂]
        exact hxy k hk

theorem update_frame (hw : LineWrites orderKey docKey q refusal insertDoc update) (new : ℤ)
    (horder : orderKey ∈ own) : orderGuard.Frame own (update new) := by
  refine ⟨fun k hk x => ?_, fun x y hxy k hk => ?_⟩
  · exact hw.update_other new x k fun he => hk (he ▸ horder)
  · have hxo : orderPart x orderKey = orderPart y orderKey := hxy _ horder
    show orderPart (update new x) k = orderPart (update new y) k
    by_cases hk₁ : k = orderKey
    · obtain ⟨p, n, hp⟩ := hw.order_part x
      rw [hk₁, hw.update_order new x p n hp, hw.update_order new y p n (hxo ▸ hp)]
    · rw [hw.update_other new x k hk₁, hw.update_other new y k hk₁]
      exact hxy k hk

end LineWrites

/-- A line that locks its order line, checks the new counter against the ordered quantity,
inserts the document line, updates the counter and goes on with something neutral: whatever
the others do in between, the order line is right again at the end. -/
theorem line_safe {α : Type} (progress : α → Progress) {table : TableName} {orderLineId : ID}
    {docKey : ID → Key} {q : ℤ}
    {find : Db → Option α} {notFound exceeded : AppError}
    {refusal : ID → Db → Option AppError} {insertDoc : ID → Db → Db} {update : ℤ → Db → Db}
    {keys : Db → List Key} {rest : ID → Handler Unit}
    (hw : LineWrites (.row table orderLineId) docKey q refusal insertDoc update)
    (hfind : ∀ db a, find db = some a →
      ∃ n, orderPart db (.row table orderLineId) = .orderLine (some (progress a)) n)
    (hrest : ∀ id, orderGuard.Neutral (rest id)) {own : List Key} {v : Db}
    {tr : List (Event FulfilmentRequest Answer)} (h : Restored own v) :
    orderGuard.Safe r (fun _ own v _ => Restored own v)
      (do
        let id ← ask .newId
        let found ← Prog.selectForUpdate
          (fun db => lockRow table orderLineId (find db).isSome) find
        let a ← Prog.orFail found notFound
        Prog.ensure (!decide ((progress a).done + q > (progress a).quantity)) exceeded
        Prog.insert [docKey id] (refusal id) (insertDoc id)
        Prog.update keys (update ((progress a).done + q))
        rest id) own v tr := by
  refine Guard.Safe.ask_bind fun v₁ tr₁ hr₁ => ⟨trivial, fun id =>
    ⟨Guard.Hears.of_none fun _ => rfl, ?_⟩⟩
  have h₁ : Restored own v₁ := fun k _ => h.whole hr₁ k
  refine Guard.Safe.selectForUpdate_bind fun v₂ tr₂ hr₂ => ?_
  refine Guard.Safe.orFail_bind fun a ha => Guard.Safe.ensure_bind fun hle => ?_
  have hle' : (progress a).done + q ≤ (progress a).quantity := by simpa using hle
  -- the order line is locked from here on
  set key : Key := .row table orderLineId with hkey
  obtain ⟨n, hn⟩ := hfind v₂ a ha
  have hlock : lockRow table orderLineId (find v₂).isSome = [key] := by
    rw [ha]; rfl
  rw [hlock]
  have h₂ : Restored (own ++ [key]) v₂ := fun k _ => h₁.whole hr₂ k
  have hagree : (progress a).Agrees n := by
    have := h₂ key (List.mem_append_right _ (List.mem_singleton_self _))
    rwa [hn] at this
  refine Guard.Safe.insert_bind fun v₃ tr₃ hr₃ hfresh => ?_
  have hkeyown : key ∈ own ++ [key] ++ [docKey id] := by simp
  have hdocown : docKey id ∈ own ++ [key] ++ [docKey id] := by simp
  have hn₃ : orderPart v₃ key = .orderLine (some (progress a)) n :=
    (hr₃.kept key (by simp)).1.trans hn
  refine ⟨⟨hw.insert_frame id hkeyown hdocown, fun _ _ => trivial⟩, ?_⟩
  -- the sum has grown, the counter not yet
  have hn₄ : orderPart (insertDoc id v₃) key = .orderLine (some (progress a)) (n + q) :=
    hw.insert_order id v₃ _ _ false hn₃ (hw.accepted id v₃ hfresh)
  have h₄ : ∀ k ∈ own ++ [key] ++ [docKey id], k ≠ key → (orderPart (insertDoc id v₃) k).Whole := by
    intro k _ hk
    by_cases hk₂ : k = docKey id
    · rw [hk₂, hw.insert_doc]
      exact trivial
    · rw [hw.insert_other id v₃ k hk hk₂]
      exact h₂.whole hr₃ k
  refine Guard.Safe.update_bind fun v₅ tr₅ hr₅ _ => ?_
  have hn₅ : orderPart v₅ key = .orderLine (some (progress a)) (n + q) :=
    (hr₅.kept key hkeyown).1.trans hn₄
  refine ⟨⟨hw.update_frame _ (List.mem_append_left _ hkeyown), fun _ _ => trivial⟩, ?_⟩
  -- counter and sum agree again
  refine neutral_safe (hrest id) fun k hk => ?_
  by_cases hk₁ : k = key
  · rw [hk₁, hw.update_order _ v₅ _ _ hn₅]
    intro hpos
    have hdone := (hagree hpos).1
    refine ⟨?_, hle', by simp [Progress.advance]⟩
    show (progress a).done + q = n + q
    omega
  · rw [hw.update_other _ v₅ k hk₁]
    by_cases hk₂ : k ∈ own ++ [key] ++ [docKey id]
    · have hp : orderPart v₅ k = orderPart (insertDoc id v₃) k := (hr₅.kept k hk₂).1
      rw [hp]
      exact h₄ k hk₂ hk₁
    · exact hr₅.rest k hk₂

/-! ## Delivery lines and receipt lines -/

section Sales

open SalesDeliveryCreate

theorem deliveryLine_writes (deliveryId : ID) (line : DeliveryLineInput) :
    LineWrites (.row .salesOrderLines line.orderLineId) (.row .salesDeliveryLines) line.quantity
      (fun id db => unique (db.salesDeliveryLines.has id))
      (fun id db => { db with
        salesDeliveryLines := db.salesDeliveryLines.insert (deliveryLine id deliveryId line) })
      fun new db => { db with
        salesOrderLines := db.salesOrderLines.modify line.orderLineId
          (SalesOrderLine.deliver new) (SalesOrderLine.deliver_id new) } where
  order_part := fun x => ⟨_, _, rfl⟩
  doc_part := fun id x => ⟨_, rfl⟩
  accepted := by
    intro id x hfresh
    show Part.documentLine _ = _
    rw [unique_eq_none.mp hfresh]
  insert_other := by
    intro id x k hk hk'
    rcases k with _ | ⟨t, i⟩
    · rfl
    · cases t with
      | salesOrderLines =>
        have hi : line.orderLineId ≠ i := fun he => hk (by rw [he])
        simp [orderPart, Db.delivered, Table.tally_insert_eq, deliveryLine, hi]
      | salesDeliveryLines =>
        have hi : id ≠ i := fun he => hk' (by rw [he])
        simp [orderPart, Table.has_insert, deliveryLine, hi]
      | _ => rfl
  insert_order := by
    intro id x p n b horder hdoc
    simp only [orderPart, Db.delivered, Part.orderLine.injEq, Part.documentLine.injEq] at *
    have hid : x.salesDeliveryLines.has (deliveryLine id deliveryId line).id = b := hdoc
    rw [Table.tally_insert_eq, hid, horder.2]
    exact ⟨horder.1, by simp [deliveryLine]⟩
  insert_doc := by
    intro id x
    simp [orderPart, Table.has_insert, deliveryLine]
  update_other := by
    intro new x k hk
    rcases k with _ | ⟨t, i⟩
    · rfl
    · cases t with
      | salesOrderLines =>
        have hi : i ≠ line.orderLineId := fun he => hk (by rw [he])
        simp [orderPart, Db.delivered, Table.get?_modify_of_ne hi]
      | _ => rfl
  update_order := by
    intro new x p n horder
    simp only [orderPart, Part.orderLine.injEq] at *
    obtain ⟨rfl, hn⟩ := horder
    refine ⟨?_, hn⟩
    rw [Table.get?_modify_self, Option.map_map, Option.map_map]
    rfl

theorem orderLine_progress {lineId orderId : ID} {db : Db} {ol : SalesOrderLine}
    (h : orderLine lineId orderId db = some ol) :
    ∃ n, orderPart db (.row .salesOrderLines lineId) = .orderLine (some ol.progress) n := by
  have hget : db.salesOrderLines.get? lineId = some ol := (Option.filter_eq_some_iff.mp h).1
  refine ⟨db.delivered lineId, ?_⟩
  simp only [orderPart, hget, Option.map_some]

theorem deliverLine_safe (orderId deliveryId : ID) (line : DeliveryLineInput) {own : List Key}
    {v : Db} {tr : List (Event FulfilmentRequest Answer)} (h : Restored own v) :
    orderGuard.Safe r (fun _ own v _ => Restored own v) (deliverLine .exact orderId deliveryId line)
      own v tr :=
  line_safe SalesOrderLine.progress (deliveryLine_writes deliveryId line)
    (fun _ _ hfind => orderLine_progress hfind)
    (fun _ => neutral_of_preserves ((InventoryLedger.issue_preserves _).factor (by intro _; rfl))) h

end Sales

section Purchase

open PurchaseReceiptCreate

theorem receiptLine_writes (receiptId : ID) (line : CreateReceiptLine) :
    LineWrites (.row .purchaseOrderLines line.orderLineId) (.row .purchaseReceiptLines)
      line.quantity
      (fun id db => unique (db.purchaseReceiptLines.has id))
      (fun id db => { db with
        purchaseReceiptLines := db.purchaseReceiptLines.insert (receiptLine id receiptId line) })
      fun new db => { db with
        purchaseOrderLines := db.purchaseOrderLines.modify line.orderLineId
          (PurchaseOrderLine.receive new) (PurchaseOrderLine.receive_id new) } where
  order_part := fun x => ⟨_, _, rfl⟩
  doc_part := fun id x => ⟨_, rfl⟩
  accepted := by
    intro id x hfresh
    show Part.documentLine _ = _
    rw [unique_eq_none.mp hfresh]
  insert_other := by
    intro id x k hk hk'
    rcases k with _ | ⟨t, i⟩
    · rfl
    · cases t with
      | purchaseOrderLines =>
        have hi : line.orderLineId ≠ i := fun he => hk (by rw [he])
        simp [orderPart, Db.received, Table.tally_insert_eq, receiptLine, hi]
      | purchaseReceiptLines =>
        have hi : id ≠ i := fun he => hk' (by rw [he])
        simp [orderPart, Table.has_insert, receiptLine, hi]
      | _ => rfl
  insert_order := by
    intro id x p n b horder hdoc
    simp only [orderPart, Db.received, Part.orderLine.injEq, Part.documentLine.injEq] at *
    have hid : x.purchaseReceiptLines.has (receiptLine id receiptId line).id = b := hdoc
    rw [Table.tally_insert_eq, hid, horder.2]
    exact ⟨horder.1, by simp [receiptLine]⟩
  insert_doc := by
    intro id x
    simp [orderPart, Table.has_insert, receiptLine]
  update_other := by
    intro new x k hk
    rcases k with _ | ⟨t, i⟩
    · rfl
    · cases t with
      | purchaseOrderLines =>
        have hi : i ≠ line.orderLineId := fun he => hk (by rw [he])
        simp [orderPart, Db.received, Table.get?_modify_of_ne hi]
      | _ => rfl
  update_order := by
    intro new x p n horder
    simp only [orderPart, Part.orderLine.injEq] at *
    obtain ⟨rfl, hn⟩ := horder
    refine ⟨?_, hn⟩
    rw [Table.get?_modify_self, Option.map_map, Option.map_map]
    rfl

theorem receiptOrderLine_progress {lineId orderId : ID} {db : Db} {ol : PurchaseOrderLine}
    (h : orderLine lineId orderId db = some ol) :
    ∃ n, orderPart db (.row .purchaseOrderLines lineId) = .orderLine (some ol.progress) n := by
  have hget : db.purchaseOrderLines.get? lineId = some ol := (Option.filter_eq_some_iff.mp h).1
  refine ⟨db.received lineId, ?_⟩
  simp only [orderPart, hget, Option.map_some]

theorem receiveLine_safe (orderId receiptId : ID) (line : CreateReceiptLine) {own : List Key}
    {v : Db} {tr : List (Event FulfilmentRequest Answer)} (h : Restored own v) :
    orderGuard.Safe r (fun _ own v _ => Restored own v) (receiveLine .exact orderId receiptId line)
      own v tr := by
  refine line_safe PurchaseOrderLine.progress (receiptLine_writes receiptId line)
    (fun _ _ hfind => receiptOrderLine_progress hfind) (fun id => neutral_of_preserves ?_) h
  refine ((InventoryLedger.receive_preserves _).factor (by intro _; rfl)).bind fun _ => ?_
  refine Prog.Preserves.bind ?_ fun _ => Prog.preserves_ret _
  exact (CostCalculator.recalcWeightedAverage_preserves _ _ _ _).factor (by intro _; rfl)

end Purchase

/-! ## Requests -/

/-- The loop over the lines of a request. -/
theorem lines_safe {ι : Type} {lines : List ι} {body : ι → Handler Unit}
    (hbody : ∀ line own v tr, Restored own v →
      orderGuard.Safe r (fun _ own v _ => Restored own v) (body line) own v tr)
    {own : List Key} {v : Db} {tr : List (Event FulfilmentRequest Answer)} (h : Restored own v) :
    orderGuard.Safe r (fun _ own v _ => Restored own v) (Prog.forEach lines body) own v tr :=
  Guard.Safe.forEach (P := fun own v _ => Restored own v)
    (fun line _ own v tr h => hbody line own v tr h)
    (fun _ _ _ _ _ h hr k _ => h.whole hr k) h

/-- A request restores every order line it has touched before it commits. -/
theorem request_safe (request : FulfilmentRequest) (v : Db)
    (tr : List (Event FulfilmentRequest Answer)) :
    orderGuard.Safe request (fun _ => orderGuard.Done request) request.run [] v tr := by
  have hstart : Restored [] v := fun k hk => (by cases hk)
  suffices h : orderGuard.Safe request (fun _ own v _ => Restored own v) request.run [] v tr from
    h.mono fun _ own v tr hrestored =>
      ⟨fun k hk => hrestored k hk, Guard.Hears.of_none fun _ => rfl⟩
  cases request with
  | delivery ctx request =>
    refine Guard.Safe.bind (Guard.Safe.bind ?_)
    have hheader := neutral_of_documents (SalesDeliveryCreate.createHeader_preserves ctx request)
    refine (neutral_safe hheader hstart).mono fun response own v tr h => ?_
    refine Guard.Safe.bind ((lines_safe (deliverLine_safe _ _) h).mono fun _ own v tr h => ?_)
    refine Guard.Safe.ret fun v' tr' hr => Guard.Safe.ret fun v'' tr'' hr' => ?_
    exact fun k _ => h.whole (hr.trans hr') k
  | receipt ctx request =>
    refine Guard.Safe.bind (Guard.Safe.bind ?_)
    have hheader := neutral_of_documents (PurchaseReceiptCreate.createHeader_preserves request)
    refine (neutral_safe hheader hstart).mono fun response own v tr h => ?_
    refine Guard.Safe.bind ((lines_safe (receiveLine_safe _ _) h).mono fun _ own v tr h => ?_)
    have hrecord : orderGuard.Neutral (PurchaseReceiptCreate.recordHeader ctx response.id) := by
      refine neutral_of_preserves ?_
      exact (PurchaseReceiptCreate.recordHeader_preserves _ _).factor (by intro _; rfl)
    refine Guard.Safe.bind ((neutral_safe hrecord h).mono fun _ own v tr h => ?_)
    refine Guard.Safe.ret fun v' tr' hr => Guard.Safe.ret fun v'' tr'' hr' => ?_
    exact fun k _ => h.whole (hr.trans hr') k

/-! ## Runs -/

theorem orderGuard_holds_iff {db : Db} {tr : List (Event FulfilmentRequest Answer)} :
    (∀ k, orderGuard.Holds k db tr) ↔ db.Fulfilled := by
  constructor
  · intro h
    refine ⟨fun l hl => ?_, fun l hl => ?_⟩
    · have hk : (orderPart db (.row .salesOrderLines l.id)).Whole :=
        h (.row .salesOrderLines l.id)
      simp only [orderPart, Table.get?_of_mem hl, Option.map_some] at hk
      exact hk
    · have hk : (orderPart db (.row .purchaseOrderLines l.id)).Whole :=
        h (.row .purchaseOrderLines l.id)
      simp only [orderPart, Table.get?_of_mem hl, Option.map_some] at hk
      exact hk
  · intro h k
    show (orderPart db k).Whole
    rcases k with _ | ⟨t, id⟩
    · exact trivial
    · cases t with
      | salesOrderLines =>
        cases hg : db.salesOrderLines.get? id with
        | none => simp only [orderPart, hg, Option.map_none]; exact trivial
        | some l =>
          obtain ⟨hl, rfl⟩ := Table.get?_eq_some.mp hg
          simp only [orderPart, hg, Option.map_some]
          exact h.sales l hl
      | purchaseOrderLines =>
        cases hg : db.purchaseOrderLines.get? id with
        | none => simp only [orderPart, hg, Option.map_none]; exact trivial
        | some l =>
          obtain ⟨hl, rfl⟩ := Table.get?_eq_some.mp hg
          simp only [orderPart, hg, Option.map_some]
          exact h.purchase l hl
      | _ => exact trivial

/-- Orders that nothing has been delivered or received for are where a run can start. -/
theorem fulfilled_of_fresh {db : Db} (hd : db.salesDeliveryLines.rows = [])
    (hr : db.purchaseReceiptLines.rows = [])
    (hs : ∀ l ∈ db.salesOrderLines.rows, l.deliveredQty = 0 ∧ l.closed = false)
    (hp : ∀ l ∈ db.purchaseOrderLines.rows, l.receivedQty = 0 ∧ l.closed = false) :
    db.Fulfilled := by
  refine ⟨fun l hl hpos => ?_, fun l hl hpos => ?_⟩
  · obtain ⟨hdone, hclosed⟩ := hs l hl
    have hpos' : 0 < l.quantity := hpos
    have hn : db.delivered l.id = 0 := by simp [Db.delivered, Table.tally, hd]
    rw [hn]
    refine ⟨hdone, ?_, ?_⟩
    · show l.deliveredQty ≤ l.quantity
      omega
    · show l.closed = true ↔ l.deliveredQty ≥ l.quantity
      rw [hclosed, hdone]
      exact ⟨fun h => (by cases h), fun h => by omega⟩
  · obtain ⟨hdone, hclosed⟩ := hp l hl
    have hpos' : 0 < l.quantity := hpos
    have hn : db.received l.id = 0 := by simp [Db.received, Table.tally, hr]
    rw [hn]
    refine ⟨hdone, ?_, ?_⟩
    · show l.receivedQty ≤ l.quantity
      omega
    · show l.closed = true ↔ l.receivedQty ≥ l.quantity
      rw [hclosed, hdone]
      exact ⟨fun h => (by cases h), fun h => by omega⟩

/-- After every run the counter of every order line is right; a request that was rejected
leaves the whole database as it was, and what changes the database is the commit of a
request that went through all of its lines. -/
theorem fulfilled_of_run {initial : Db} (hinit : initial.Fulfilled)
    {c : Config Db Key Answer AppError (ID × String) FulfilmentRequest}
    (hr : Run FulfilmentRequest.run (fun _ _ => True) (Config.init initial) c) :
    c.db.Fulfilled ∧
    (∀ i ans s e d, c.session? i = some s → s.prog = .fail e →
      c.act FulfilmentRequest.run (.step i ans) = some d → d.db = c.db) ∧
    ∀ a d, c.act FulfilmentRequest.run a = some d → d.db ≠ c.db →
      ∃ i ans s response, a = .step i ans ∧ c.session? i = some s ∧ s.prog = .ret response ∧
        d = c.commit i s := by
  refine ⟨?_, ?_, ?_⟩
  · have hsound := Guard.Sound.run (G := orderGuard)
      (fun request v tr _ => request_safe request v tr) (fun _ _ _ _ _ _ _ _ => trivial)
      (Guard.Sound.init (orderGuard_holds_iff.mpr hinit)) hr
    exact orderGuard_holds_iff.mp hsound.holds
  · intro i ans s e d hs hp hact
    rcases (Step.of_act hact).db_eq with h | ⟨j, ans', s', x, ha, hs', hp', -⟩
    · exact h
    · obtain ⟨rfl, -⟩ := Action.step.inj ha
      obtain rfl : s = s' := Option.some.inj (hs.symm.trans hs')
      rw [hp] at hp'
      cases hp'
  · intro a d hact hne
    rcases (Step.of_act hact).db_eq with h | h
    · exact absurd h hne
    · exact h

/-- An approved sales order with one line, an approved purchase order with one, and stock. -/
def twoOrders : Db :=
  { Db.empty with
    inventories := Table.empty.insert ⟨1, 7, 1, 20, 0, 1⟩
    salesOrders := Table.empty.insert ⟨10, 50, 3, 0⟩
    salesOrderLines := Table.empty.insert ⟨11, 10, 7, 10, 0, false, 1, 0, 0⟩
    purchaseOrders := Table.empty.insert ⟨20, 60, 3, 0⟩
    purchaseOrderLines := Table.empty.insert ⟨21, 20, 8, 6, 0, 0, false, 1, 0, 0⟩ }

def clerk : Operator := ⟨1, none, none⟩

/-- A delivery that names its order line twice, a receipt, and a delivery that is too much. -/
def threeRequests : List FulfilmentRequest :=
  [.delivery clerk ⟨10, none, [⟨11, 7, 1, 3, none⟩, ⟨11, 7, 1, 4, none⟩]⟩,
    .receipt clerk ⟨20, none, none, [⟨21, 8, 1, 6, none, 100⟩]⟩,
    .delivery clerk ⟨10, none, [⟨11, 7, 1, 2, none⟩, ⟨11, 7, 1, 2, none⟩]⟩]

/-- The first two take turns to their commits, then the third tries. -/
def takingTurns : List (Action FulfilmentRequest Answer) :=
  threeRequests.map .start ++
    ((List.range 48).map fun n => .step (n % 2) (numbered (100 + n) 0)) ++
    ((List.range 4).map fun n => .step 0 (numbered (200 + n) 0)) ++
    ((List.range 21).map fun n => .step 2 (numbered (300 + n) 0))

theorem fulfilled_of_run_twoOrders :
    ∃ c, Run FulfilmentRequest.run (fun _ _ => True) (Config.init twoOrders) c ∧
      c.db.delivered 11 = 7 ∧ c.db.received 21 = 6 ∧ c.db.stock 7 1 = 13 ∧ c.db.Fulfilled := by
  have hplay : ((Config.init twoOrders).play FulfilmentRequest.run (fun _ _ => true)
      takingTurns).map (fun c => (c.db.delivered 11, c.db.received 21, c.db.stock 7 1)) =
        some (7, 6, 13) := by
    decide +kernel
  obtain ⟨c, hc, hfacts⟩ := Option.map_eq_some_iff.mp hplay
  obtain ⟨hdelivered, hrest⟩ := Prod.mk.inj hfacts
  obtain ⟨hreceived, hstock⟩ := Prod.mk.inj hrest
  have hrun := Run.of_play (fun _ _ _ => trivial) .refl hc
  have hinit : twoOrders.Fulfilled := fulfilled_of_fresh rfl rfl (by decide) (by decide)
  exact ⟨c, hrun, hdelivered, hreceived, hstock, (fulfilled_of_run hinit hrun).1⟩

end Slab
