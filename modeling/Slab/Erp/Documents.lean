import Slab.Erp.RowLocks
import Slab.Erp.OrderCreation
import Slab.Erp.SalesOrders
import Slab.Erp.Boms
import Slab.Erp.Inspections
import Slab.Erp.InventoryChecks
import Slab.Erp.Warehouse
import Slab.Erp.WorkOrders
import Slab.Finance.Payments

/-!
# Documents that follow the protocol

Most of the transactions that create documents and change their status lock the one document they
are about before they look at it, and otherwise add rows under new identifiers. They follow the
two-phase protocol: however they are interleaved, the outcome is that of the committed requests one
after another, and none of them waits while another waits for it.

## Main definitions

- `DocumentRequest` — the requests, over sales, purchase, finance, warehouse, product, quality and
  production

## Main results

- `DocumentRequest.follows` — each of them follows the protocol
- `documents_serializable` — the committed database is what the requests make of it in turn
- `documents_progress` — every open transaction can go on, or waits for one that can
-/

namespace Slab

open Txn Txn.TwoPhase

/-! ## Creation of orders -/

section OrderLines

variable {own : List Key} {new : Key → Prop}

/-- The identifiers of the lines are reserved for them. -/
theorem lineIds_follows (lines : List PurchaseOrderCreate.CreateOrderLine) :
    FollowsLocks (PurchaseOrderCreate.lineIds lines)
      (fun r _ new' => ∀ l ∈ r, ∀ tn, new' (.row tn l.1)) own new := by
  induction lines generalizing own new with
  | nil => exact fun l hl => absurd hl List.not_mem_nil
  | cons line lines ih =>
    refine Follows.ask_bind fun lineId => ih.bind fun rest own' new' _ hnew hrest => ?_
    intro l hl tn
    rcases List.mem_cons.mp hl with rfl | hl
    · exact hnew _ (.inr rfl)
    · exact hrest l hl tn

/-- A loop that inserts lines whose identifiers are reserved. -/
theorem insertLines_follows {ρ ι : Type} {S : Slot ρ} (hS : S.Lawful) (xs : List ι) (row : ι → ρ)
    {k : Key} (hk : k ∈ own) (hnew : ∀ x ∈ xs, new (.row S.name (S.key (row x)))) :
    FollowsLocks (Prog.forEach xs fun x => insertRow S.name (S.key (row x))
      (fun db => (S.get db).has (S.key (row x))) fun db => S.set ((S.get db).insert (row x)) db)
      (fun _ own' _ => k ∈ own') own new := by
  refine (Follows.forEach (I := fun own new => k ∈ own ∧
    ∀ x ∈ xs, new (.row S.name (S.key (row x)))) ⟨hk, hnew⟩ fun x hx own new hI => ?_).mono
      fun _ _ _ h => h.1
  rw [← Prog.bind_ret (insertRow _ _ _ _)]
  exact hS.insertRow (row x) (hI.2 x hx) fun own' hsub _ => ⟨hsub hI.1, hI.2⟩

end OrderLines

theorem SalesOrderCreate.follows (ctx : Operator) (request : CreateSalesOrderRequest) :
    FollowsLocks (execute ctx request) (fun _ _ _ => True) [] fun _ => False := by
  refine Follows.ensure_bind fun _ => Follows.ask_bind fun id => ?_
  refine (nextNumber_follows _ _).bind fun code own new _ hnew _ => ?_
  refine (lineIds_follows _).bind fun lines own new' _ hnew' hlines => ?_
  refine salesOrderSlot_readable.insertRow ⟨id, _, _, _⟩ (hnew' _ (hnew _ (.inr rfl)))
    fun own' _ hid => ?_
  refine (insertLines_follows salesOrderLineSlot_lawful lines.zipIdx
    (fun line => orderLine line.2 line.1.1 id line.1.2) hid fun x hx =>
      hlines x.1 (List.fst_mem_of_mem_zipIdx hx) _).bind fun _ own'' new'' _ _ hid => ?_
  refine Within.follows (.bind ?_ fun _ => .ret _) hid
  exact .read salesOrderSlot_readable _ fun r => .record _ _ _ _ _ _

theorem PurchaseOrderCreate.follows (ctx : Operator) (request : CreatePurchaseOrderRequest) :
    FollowsLocks (execute ctx request) (fun _ _ _ => True) [] fun _ => False := by
  refine Follows.ensure_bind fun _ => Follows.ask_bind fun id => ?_
  refine (nextNumber_follows _ _).bind fun code own new _ hnew _ => ?_
  refine (lineIds_follows _).bind fun lines own new' _ hnew' hlines => ?_
  refine purchaseOrderSlot_readable.insertRow ⟨id, _, _, _⟩ (hnew' _ (hnew _ (.inr rfl)))
    fun own' _ hid => ?_
  refine (insertLines_follows purchaseOrderLineSlot_lawful lines.zipIdx
    (fun line => orderLine line.2 line.1.1 id line.1.2) hid fun x hx =>
      hlines x.1 (List.fst_mem_of_mem_zipIdx hx) _).bind fun _ own'' new'' _ _ hid => ?_
  refine Within.follows (.bind ?_ fun _ => .ret _) hid
  exact .read purchaseOrderSlot_readable _ fun r => .record _ _ _ _ _ _

/-! ## Statuses of orders -/

theorem SalesOrderRepository.updateStatus_within (id : ID) (status : ℤ) :
    Within (.row .salesOrders id) (updateStatus id status) :=
  .update (f := SalesOrder.setStatus status) salesOrderSlot_readable
    (SalesOrder.setStatus_id status) fun _ => rfl

theorem SalesOrderRepository.lockStatus_within (id : ID) :
    Within (.row .salesOrders id) (lockStatus id) :=
  .bind (.lock salesOrderSlot_readable _) fun _ => .ret _

theorem changeSalesOrder_follows (ctx : Operator) {id : ID} {act : Handler Unit}
    (hact : Within (.row .salesOrders id) act) :
    FollowsLocks (changeSalesOrder ctx id act) (fun _ _ _ => True) [] fun _ => False := by
  refine salesOrderSlot_readable.begins fun before => .bind hact fun _ => ?_
  refine .bind (.lock salesOrderSlot_readable _) fun after => ?_
  exact .bind (.record _ _ _ _ _ _) fun _ => .ret _

theorem SalesOrderSubmit.follows (ctx : Operator) (id : ID) :
    FollowsLocks (execute ctx id) (fun _ _ _ => True) [] fun _ => False :=
  changeSalesOrder_follows ctx (.bind (SalesOrderRepository.lockStatus_within id) fun _ =>
    .bind (.ofExcept _) fun status => SalesOrderRepository.updateStatus_within id status)

theorem SalesOrderApprove.follows (ctx : Operator) (id : ID) :
    FollowsLocks (execute ctx id) (fun _ _ _ => True) [] fun _ => False :=
  changeSalesOrder_follows ctx (.bind (SalesOrderRepository.lockStatus_within id) fun _ =>
    .bind (.ofExcept _) fun status => SalesOrderRepository.updateStatus_within id status)

theorem PurchaseOrderRepository.updateStatus_within (id : ID) (status : ℤ) :
    Within (.row .purchaseOrders id) (updateStatus id status) :=
  .update (f := PurchaseOrder.setStatus status) purchaseOrderSlot_readable
    (PurchaseOrder.setStatus_id status) fun _ => rfl

theorem PurchaseOrderRepository.transition_within (id : ID) (rule : ℤ → Except AppError ℤ) :
    Within (.row .purchaseOrders id) (transition id rule) := by
  refine .bind (.bind (.lock purchaseOrderSlot_readable _) fun _ => .ret _) fun status => ?_
  refine .bind (.ofExcept _) fun newStatus => ?_
  exact .bind (updateStatus_within id newStatus) fun _ => .ret _

theorem changeStatus_follows (ctx : Operator) (id : ID) (rule : ℤ → Except AppError ℤ) :
    FollowsLocks (changeStatus ctx id (PurchaseOrderRepository.transition id rule))
      (fun _ _ _ => True) [] fun _ => False := by
  refine purchaseOrderSlot_readable.begins fun before => ?_
  refine .bind (PurchaseOrderRepository.transition_within id rule) fun newStatus => ?_
  refine .read purchaseOrderSlot_readable _ fun after => ?_
  exact .bind (.record _ _ _ _ _ _) fun _ => .ret _

theorem PurchaseOrderSubmit.follows (ctx : Operator) (id : ID) :
    FollowsLocks (execute ctx id) (fun _ _ _ => True) [] fun _ => False :=
  (changeStatus_follows ctx id poFlow.submitStatus).bind fun _ _ _ _ _ _ => trivial

theorem PurchaseOrderApprove.follows (ctx : Operator) (id : ID) :
    FollowsLocks (execute ctx id) (fun _ _ _ => True) [] fun _ => False :=
  (changeStatus_follows ctx id poFlow.approveStatus).bind fun _ _ _ _ _ _ => trivial

theorem PurchaseOrderReject.follows (ctx : Operator) (id : ID) :
    FollowsLocks (execute ctx id) (fun _ _ _ => True) [] fun _ => False :=
  (changeStatus_follows ctx id poFlow.rejectStatus).bind fun _ _ _ _ _ _ => trivial

theorem PurchaseOrderDelete.follows (ctx : Operator) (id : ID) :
    FollowsLocks (execute ctx id) (fun _ _ _ => True) [] fun _ => False := by
  refine purchaseOrderSlot_readable.begins fun before => .bind (.ensure _ _) fun _ => ?_
  refine .bind (PurchaseOrderRepository.updateStatus_within id _) fun _ => ?_
  exact .bind (.record _ _ _ _ _ _) fun _ => .ret _

/-! ## Invoices and payments -/

theorem invoiceDateOrToday_follows (date : Option Date) {own : List Key} {new : Key → Prop} :
    FollowsLocks (invoiceDateOrToday date) (fun _ _ _ => True) own new := by
  cases date with
  | some d => exact trivial
  | none => exact fun _ => trivial

theorem PurchaseInvoiceCreate.follows (ctx : Operator) (request : CreateInvoiceRequest) :
    FollowsLocks (execute ctx request) (fun _ _ _ => True) [] fun _ => False := by
  refine purchaseOrderSlot_readable.readParty (fun r s h => ?_) fun order => ?_
  · have hs : r.supplierId = s.supplierId := Option.some.inj h
    simp only [hs]
  · refine (nextNumber_follows _ _).bind fun code own new _ _ _ => Follows.ask_bind fun id => ?_
    refine (invoiceDateOrToday_follows _).bind fun date own new' _ hnew _ => ?_
    refine purchaseInvoiceSlot_readable.insertRow (invoice id order.supplierId code date request)
      (hnew _ (.inr rfl)) fun own' _ hid => ?_
    refine Within.follows (k := .row .purchaseInvoices id) ?_ hid
    refine .read purchaseInvoiceSlot_readable _ fun r => ?_
    exact .bind (.record _ _ _ _ _ _) fun _ => .ret _

/-- The locked read of an invoice's amounts. -/
theorem InvoicePort.lockAmounts_follows (t : InvoiceType) (id : ID) :
    FollowsLocks (lockAmounts t id) (fun _ own' _ => .row t.table id ∈ own') []
      fun _ => False := by
  have hpresent : ∀ v : Db, (v.invoice? t id).isSome = (v.entry (.row t.table id)).isSome := by
    intro v
    cases t <;> simp only [Db.invoice?, InvoiceType.table, Db.entry, Option.isSome_map]
  have hsame : ∀ v v' : Db, v.entry (.row t.table id) = v'.entry (.row t.table id) →
      v.invoice? t id = v'.invoice? t id := by
    intro v v' h
    cases t with
    | sales => exact congrArg (Option.map _) (salesInvoiceSlot_readable.get_eq h)
    | purchase => exact congrArg (Option.map _) (purchaseInvoiceSlot_readable.get_eq h)
  have hkeys : ∀ (v : Db) a, v.invoice? t id = some a →
      lockRow t.table id (v.invoice? t id).isSome = [.row t.table id] := by
    intro v a ha
    rw [ha]
    rfl
  refine Follows.lock_orFail (fun v k hk => ?_) (fun v v' a hv ha => ?_) fun v a ha => ?_
  · cases hsome : (v.invoice? t id).isSome with
    | false =>
      rw [hsome] at hk
      exact absurd hk List.not_mem_nil
    | true =>
      rw [hsome] at hk
      obtain rfl := List.mem_singleton.mp hk
      exact .first ((hpresent v).symm.trans hsome)
  · have hget := hsame v v' (hv.same _ (by rw [hkeys v a ha]; exact List.mem_singleton_self _))
    exact ⟨by rw [← hget], by rw [← hget, ha]⟩
  · rw [hkeys v a ha]
    exact List.mem_singleton_self _

theorem PaymentCreate.updatePaid_within (t : InvoiceType) (id : ID) (newPaid : ℤ) :
    Within (.row t.table id) (updatePaid t id newPaid) := by
  cases t with
  | sales =>
    have hupdate : Within (.row .salesInvoices id) _ :=
      .update (f := SalesInvoiceRow.setPaid newPaid) salesInvoiceSlot_readable
        (SalesInvoiceRow.setPaid_id newPaid) fun _ => rfl
    simp only [updatePaid, Db.invoice?, Option.isSome_map]
    exact hupdate
  | purchase =>
    have hupdate : Within (.row .purchaseInvoices id) _ :=
      .update (f := PurchaseInvoiceRow.setPaid newPaid) purchaseInvoiceSlot_readable
        (PurchaseInvoiceRow.setPaid_id newPaid) fun _ => rfl
    simp only [updatePaid, Db.invoice?, Option.isSome_map]
    exact hupdate

theorem PaymentCreate.paymentDateOrToday_follows (date : Option Date) {own : List Key}
    {new : Key → Prop} :
    FollowsLocks (paymentDateOrToday date) (fun _ _ _ => True) own new := by
  cases date with
  | some d => exact trivial
  | none => exact fun _ => trivial

theorem PaymentCreate.follows (ctx : Operator) (request : CreatePaymentRequest) :
    FollowsLocks (execute ctx request) (fun _ _ _ => True) [] fun _ => False := by
  refine Follows.ensure_bind fun _ => Follows.ofExcept_bind fun t _ => ?_
  rw [InvoicePort.byId_eq]
  refine (InvoicePort.lockAmounts_follows t _).bind fun inv own new _ _ hinvoice => ?_
  refine Follows.ensure_bind fun _ => ?_
  refine (nextNumber_follows _ _).bind fun code own₁ new₁ hsub₁ _ _ => Follows.ask_bind fun id => ?_
  refine (paymentDateOrToday_follows _).bind fun date own₂ new₂ hsub₂ hnew₂ _ => ?_
  refine paymentSlot_readable.insertRow (payment id code date request) (hnew₂ _ (.inr rfl))
    fun own₃ hsub₃ hid => ?_
  have hrecord : Within (.row .payments id) (recordPayment ctx id) :=
    .read paymentSlot_readable _ fun r => .record _ _ _ _ _ _
  refine (hrecord.follows hid).bind fun _ own₄ new₄ hsub₄ _ _ => ?_
  refine Within.follows (.bind (updatePaid_within t _ _) fun _ => .ret _) ?_
  exact hsub₄ (hsub₃ (hsub₂ (hsub₁ hinvoice)))

/-! ## Returns, transfers and checks -/

theorem PurchaseReturnCreate.follows (ctx : Operator) (request : CreateReturnRequest) :
    FollowsLocks (execute ctx request) (fun _ _ _ => True) [] fun _ => False := by
  have hheader : FollowsLocks (createHeader request)
      (fun r own' _ => .row .purchaseReturns r.id ∈ own') [] fun _ => False := by
    refine purchaseOrderSlot_readable.readParty (fun r s h => ?_) fun order => ?_
    · have hs : r.supplierId = s.supplierId := Option.some.inj h
      simp only [hs]
    · refine (nextNumber_follows _ _).bind fun code own new _ _ _ => ?_
      refine Follows.ask_bind fun id => Follows.ask_bind fun date => ?_
      exact purchaseReturnSlot_readable.insertRow ⟨⟨id, _, _, _, _, _, _, _⟩, _⟩
        (.inl (.inr rfl)) fun own' _ hid => hid
  refine hheader.bind fun r own new _ _ hid => Within.follows ?_ hid
  refine .bind ?_ fun _ => .bind ?_ fun _ => .ret _
  · exact .insertFresh purchaseReturnLineSlot_lawful request.lines
      (fun lineId line => returnLine lineId r.id line) (fun _ _ => rfl)
      (fun lineId line db => (unique (db.purchaseReturnLines.has lineId)).or
        (references (db.purchaseReceiptLines.has line.receiptLineId)))
      fun lineId line own h => .or (purchaseReturnLineSlot_lawful.lasting_unique h)
        (purchaseReceiptLineSlot_lawful.lasting_references line.receiptLineId)
  · exact .read purchaseReturnSlot_readable _ fun ret => .record _ _ _ _ _ _

theorem PurchaseReturnApprove.submit_follows (id : ID) :
    FollowsLocks (submitExecute id) (fun _ _ _ => True) [] fun _ => False := by
  have hlock : FollowsLocks (PurchaseReturnRepository.lockStatus id)
      (fun _ own' _ => .row .purchaseReturns id ∈ own') [] fun _ => False :=
    (purchaseReturnSlot_readable.lock (.inl rfl)).bind fun _ _ _ _ _ hk => hk
  refine hlock.bind fun status own new _ _ hk => Within.follows ?_ hk
  refine .bind (.ofExcept _) fun newStatus => ?_
  exact .update (f := PurchaseReturnRow.setStatus newStatus) purchaseReturnSlot_readable
    (PurchaseReturnRow.setStatus_id newStatus) fun _ => rfl

theorem StockTransferCreate.transferDateOrToday_follows (date : Option Date) {own : List Key}
    {new : Key → Prop} :
    FollowsLocks (transferDateOrToday date) (fun _ _ _ => True) own new := by
  cases date with
  | some d => exact trivial
  | none => exact fun _ => trivial

theorem StockTransferCreate.follows (ctx : Operator) (request : CreateTransferRequest) :
    FollowsLocks (execute ctx request) (fun _ _ _ => True) [] fun _ => False := by
  refine (nextNumber_follows _ _).bind fun code own₁ new₁ _ _ _ => Follows.ask_bind fun id => ?_
  refine (transferDateOrToday_follows _).bind fun date own₂ new₂ _ hnew₂ _ => ?_
  refine stockTransferSlot_readable.insertRow (transferRow id code date request)
    (hnew₂ _ (.inr rfl)) fun own₃ _ hid => ?_
  refine Within.follows (k := .row .stockTransfers id) ?_ hid
  refine .bind ?_ fun _ => .bind ?_ fun _ => .ret _
  · exact .insertFresh stockTransferItemSlot_lawful request.items
      (fun lineId item => transferItemRow lineId id item) (fun _ _ => rfl)
      (fun lineId _ db => unique (db.stockTransferItems.has lineId))
      fun _ _ _ h => stockTransferItemSlot_lawful.lasting_unique h
  · exact .read stockTransferSlot_readable _ fun after => .record _ _ _ _ _ _

theorem StockTransferSubmit.follows (ctx : Operator) (id : ID) :
    FollowsLocks (execute ctx id) (fun _ _ _ => True) [] fun _ => False := by
  refine stockTransferSlot_readable.begins fun before => .bind ?_ fun _ => ?_
  · refine .bind (.bind (.lock stockTransferSlot_readable _) fun _ => .ret _) fun status => ?_
    refine .bind (.ofExcept _) fun newStatus => ?_
    exact .update (f := StockTransfer.setStatus newStatus) stockTransferSlot_readable
      (StockTransfer.setStatus_id newStatus) fun _ => rfl
  · exact .read stockTransferSlot_readable _ fun after => .record _ _ _ _ _ _

theorem InventoryCheckSubmit.follows (ctx : Operator) (id : ID) :
    FollowsLocks (execute ctx id) (fun _ _ _ => True) [] fun _ => False := by
  refine inventoryCheckSlot_readable.begins fun before => .bind ?_ fun _ => .bind ?_ fun _ => .ret _
  · refine .bind (.bind (.lock inventoryCheckSlot_readable _) fun _ => .ret _) fun status => ?_
    refine .bind (.ofExcept _) fun newStatus => ?_
    exact .update (f := InventoryCheck.setStatus newStatus) inventoryCheckSlot_readable
      (InventoryCheck.setStatus_id newStatus) fun _ => rfl
  · exact .read inventoryCheckSlot_readable _ fun after => .record _ _ _ _ _ _

/-! ## Bills of material, inspections and work orders -/

theorem BomCreate.follows (ctx : Operator) (request : CreateBomRequest) :
    FollowsLocks (execute ctx request) (fun _ _ _ => True) [] fun _ => False := by
  refine Follows.ask_bind fun id => ?_
  refine (nextNumber_follows _ _).bind fun code own new _ hnew _ => ?_
  refine bomSlot_readable.insertRow (bomRow id code request) (hnew _ (.inr rfl))
    fun own' _ hid => Within.follows (k := .row .boms id) ?_ hid
  refine .bind ?_ fun _ => .bind ?_ fun _ => .ret _
  · exact .insertFresh bomItemSlot_lawful request.items (fun itemId item => bomItem itemId id item)
      (fun _ _ => rfl) (fun itemId _ db => unique (db.bomItems.has itemId))
      fun _ _ _ h => bomItemSlot_lawful.lasting_unique h
  · exact .read bomSlot_readable _ fun bom => .record _ _ _ _ _ _

theorem BomRelease.follows (ctx : Operator) (id : ID) :
    FollowsLocks (execute ctx id) (fun _ _ _ => True) [] fun _ => False := by
  refine bomSlot_readable.begins fun before => .bind (.ensure _ _) fun _ => ?_
  refine .bind (.update (f := Bom.setStatus BomStatus.released.toI16) bomSlot_readable
    (Bom.setStatus_id BomStatus.released.toI16) fun _ => rfl) fun _ => ?_
  refine .read bomSlot_readable _ fun after => ?_
  exact .bind (.record _ _ _ _ _ _) fun _ => .ret _

theorem InspectionTemplateCreate.follows (ctx : Operator) (request : CreateTemplateRequest) :
    FollowsLocks (execute ctx request) (fun _ _ _ => True) [] fun _ => False := by
  refine Follows.ask_bind fun id => Follows.ask_bind fun seq => ?_
  refine inspectionTemplateSlot_readable.insertRow ⟨id, _, _, _, _⟩ (.inl (.inr rfl))
    fun own' _ hid => Within.follows (k := .row .inspectionTemplates id) ?_ hid
  refine .bind ?_ fun _ => ?_
  · exact .insertFresh inspectionTemplateItemSlot_lawful request.items.zipIdx
      (fun itemId item => templateItem item.2 itemId id item.1) (fun _ _ => rfl)
      (fun itemId _ db => unique (db.inspectionTemplateItems.has itemId))
      fun _ _ _ h => inspectionTemplateItemSlot_lawful.lasting_unique h
  · refine .read inspectionTemplateSlot_readable _ fun template => ?_
    exact .bind (.record _ _ _ _ _ _) fun _ => .ret _

theorem InspectionOrderComplete.follows (ctx : Operator) (id : ID)
    (request : CompleteInspectionRequest) :
    FollowsLocks (execute ctx id request) (fun _ _ _ => True) [] fun _ => False := by
  have hlock : FollowsLocks (lockPending id) (fun _ own' _ => .row .inspectionOrders id ∈ own') []
      fun _ => False :=
    inspectionOrderSlot_readable.lock_bind fun before own new hk =>
      Follows.ensure_bind fun _ => hk
  refine hlock.bind fun before own new _ _ hk => Within.follows ?_ hk
  refine .bind ?_ fun _ => .bind (.ask _) fun now => .bind ?_ fun _ => ?_
  · exact .insertFresh inspectionResultSlot_lawful request.results
      (fun rid r => inspectionResult rid id r) (fun _ _ => rfl)
      (fun rid r db => (unique (db.inspectionResults.has rid)).or
        (references (db.inspectionTemplateItems.has r.templateItemId)))
      fun rid r own h => .or (inspectionResultSlot_lawful.lasting_unique h)
        (inspectionTemplateItemSlot_lawful.lasting_references r.templateItemId)
  · exact .update (f := InspectionOrder.conclude (overall request.results) now)
      inspectionOrderSlot_readable (InspectionOrder.conclude_id (overall request.results) now)
      fun _ => rfl
  · refine .read inspectionOrderSlot_readable _ fun after => ?_
    exact .bind (.record _ _ _ _ _ _) fun _ => .ret _

theorem WorkOrderComplete.follows (ctx : Operator) (id : ID) :
    FollowsLocks (execute ctx id) (fun _ _ _ => True) [] fun _ => False := by
  have hlock : FollowsLocks (lockOpen id) (fun _ own' _ => .row .workOrders id ∈ own') []
      fun _ => False :=
    workOrderSlot_readable.lock_bind fun before own new hk => Follows.ensure_bind fun _ => hk
  refine hlock.bind fun before own new _ _ hk => Within.follows ?_ hk
  refine .bind (.update (f := WorkOrder.setStatus WorkOrderStatus.completed.toI16)
    workOrderSlot_readable (WorkOrder.setStatus_id WorkOrderStatus.completed.toI16)
    fun _ => rfl) fun _ => ?_
  exact .read workOrderSlot_readable _ fun after => .record _ _ _ _ _ _

/-! ## Requests -/

/-- The requests that follow the protocol, each a transaction of its own. -/
inductive DocumentRequest where
  | createSalesOrder (ctx : Operator) (request : SalesOrderCreate.CreateSalesOrderRequest)
  | submitSalesOrder (ctx : Operator) (id : ID)
  | approveSalesOrder (ctx : Operator) (id : ID)
  | createPurchaseOrder (ctx : Operator)
      (request : PurchaseOrderCreate.CreatePurchaseOrderRequest)
  | submitPurchaseOrder (ctx : Operator) (id : ID)
  | approvePurchaseOrder (ctx : Operator) (id : ID)
  | rejectPurchaseOrder (ctx : Operator) (id : ID)
  | deletePurchaseOrder (ctx : Operator) (id : ID)
  | createPurchaseInvoice (ctx : Operator) (request : PurchaseInvoiceCreate.CreateInvoiceRequest)
  | pay (ctx : Operator) (request : PaymentCreate.CreatePaymentRequest)
  | createReturn (ctx : Operator) (request : PurchaseReturnCreate.CreateReturnRequest)
  | submitReturn (id : ID)
  | createTransfer (ctx : Operator) (request : StockTransferCreate.CreateTransferRequest)
  | submitTransfer (ctx : Operator) (id : ID)
  | submitCheck (ctx : Operator) (id : ID)
  | createBom (ctx : Operator) (request : BomCreate.CreateBomRequest)
  | releaseBom (ctx : Operator) (id : ID)
  | createTemplate (ctx : Operator) (request : InspectionTemplateCreate.CreateTemplateRequest)
  | completeInspection (ctx : Operator) (id : ID)
      (request : InspectionOrderComplete.CompleteInspectionRequest)
  | completeWorkOrder (ctx : Operator) (id : ID)
deriving DecidableEq

namespace DocumentRequest

/-- The transaction of a request, its response left out. -/
def run : DocumentRequest → Handler Unit
  | createSalesOrder ctx request => do
    let _ ← SalesOrderCreate.execute ctx request
    pure ()
  | submitSalesOrder ctx id => do
    let _ ← SalesOrderSubmit.execute ctx id
    pure ()
  | approveSalesOrder ctx id => do
    let _ ← SalesOrderApprove.execute ctx id
    pure ()
  | createPurchaseOrder ctx request => do
    let _ ← PurchaseOrderCreate.execute ctx request
    pure ()
  | submitPurchaseOrder ctx id => do
    let _ ← PurchaseOrderSubmit.execute ctx id
    pure ()
  | approvePurchaseOrder ctx id => do
    let _ ← PurchaseOrderApprove.execute ctx id
    pure ()
  | rejectPurchaseOrder ctx id => do
    let _ ← PurchaseOrderReject.execute ctx id
    pure ()
  | deletePurchaseOrder ctx id => do
    let _ ← PurchaseOrderDelete.execute ctx id
    pure ()
  | createPurchaseInvoice ctx request => do
    let _ ← PurchaseInvoiceCreate.execute ctx request
    pure ()
  | pay ctx request => do
    let _ ← PaymentCreate.execute ctx request
    pure ()
  | createReturn ctx request => do
    let _ ← PurchaseReturnCreate.execute ctx request
    pure ()
  | submitReturn id => PurchaseReturnApprove.submitExecute id
  | createTransfer ctx request => do
    let _ ← StockTransferCreate.execute ctx request
    pure ()
  | submitTransfer ctx id => StockTransferSubmit.execute ctx id
  | submitCheck ctx id => do
    let _ ← InventoryCheckSubmit.execute ctx id
    pure ()
  | createBom ctx request => do
    let _ ← BomCreate.execute ctx request
    pure ()
  | releaseBom ctx id => do
    let _ ← BomRelease.execute ctx id
    pure ()
  | createTemplate ctx request => do
    let _ ← InspectionTemplateCreate.execute ctx request
    pure ()
  | completeInspection ctx id request => do
    let _ ← InspectionOrderComplete.execute ctx id request
    pure ()
  | completeWorkOrder ctx id => WorkOrderComplete.execute ctx id

/-- A handler whose response is left out. -/
theorem follows_discard {α : Type} {p : Handler α}
    (h : FollowsLocks p (fun _ _ _ => True) [] fun _ => False) :
    FollowsLocks (p >>= fun _ => (pure () : Handler Unit)) (fun _ _ _ => True) []
      fun _ => False :=
  h.bind fun _ _ _ _ _ _ => trivial

/-- Every request follows the protocol. -/
theorem follows (r : DocumentRequest) :
    rowLocks.Follows (fun _ _ _ => True) r.run [] fun _ => False := by
  cases r with
  | createSalesOrder ctx request => exact follows_discard (SalesOrderCreate.follows ctx request)
  | submitSalesOrder ctx id => exact follows_discard (SalesOrderSubmit.follows ctx id)
  | approveSalesOrder ctx id => exact follows_discard (SalesOrderApprove.follows ctx id)
  | createPurchaseOrder ctx request =>
    exact follows_discard (PurchaseOrderCreate.follows ctx request)
  | submitPurchaseOrder ctx id => exact follows_discard (PurchaseOrderSubmit.follows ctx id)
  | approvePurchaseOrder ctx id => exact follows_discard (PurchaseOrderApprove.follows ctx id)
  | rejectPurchaseOrder ctx id => exact follows_discard (PurchaseOrderReject.follows ctx id)
  | deletePurchaseOrder ctx id => exact follows_discard (PurchaseOrderDelete.follows ctx id)
  | createPurchaseInvoice ctx request =>
    exact follows_discard (PurchaseInvoiceCreate.follows ctx request)
  | pay ctx request => exact follows_discard (PaymentCreate.follows ctx request)
  | createReturn ctx request => exact follows_discard (PurchaseReturnCreate.follows ctx request)
  | submitReturn id => exact PurchaseReturnApprove.submit_follows id
  | createTransfer ctx request => exact follows_discard (StockTransferCreate.follows ctx request)
  | submitTransfer ctx id => exact StockTransferSubmit.follows ctx id
  | submitCheck ctx id => exact follows_discard (InventoryCheckSubmit.follows ctx id)
  | createBom ctx request => exact follows_discard (BomCreate.follows ctx request)
  | releaseBom ctx id => exact follows_discard (BomRelease.follows ctx id)
  | createTemplate ctx request =>
    exact follows_discard (InspectionTemplateCreate.follows ctx request)
  | completeInspection ctx id request =>
    exact follows_discard (InspectionOrderComplete.follows ctx id request)
  | completeWorkOrder ctx id => exact WorkOrderComplete.follows ctx id

end DocumentRequest

/-! ## Runs -/

/-- However the requests are interleaved, the committed database is what they make of the initial
one when those that committed are executed alone, in the order of their commits and with the same
answers from outside. -/
theorem documents_serializable {initial : Db}
    {ok : Config Db Key Answer AppError Unit DocumentRequest → Action DocumentRequest Answer → Prop}
    {c : Config Db Key Answer AppError Unit DocumentRequest}
    (hr : Run DocumentRequest.run ok (Config.init initial) c) :
    Replayed DocumentRequest.run initial c.trace c.db :=
  replayed_of_run DocumentRequest.follows hr

/-- A payment on the one invoice. -/
def payDocument (amount : ℤ) : DocumentRequest :=
  .pay ⟨1, none, none⟩ ⟨1, "sales_invoice", 1, amount, none, none, none⟩

def orderDocument : DocumentRequest := .createPurchaseOrder ⟨1, none, none⟩ ⟨60, [⟨7, 2, 50⟩]⟩

/-- Session `i` takes `n` steps; what it asks is answered from `base` on. -/
def documentSteps (i : ℕ) (base : ℤ) (n : ℕ) : List (Action DocumentRequest Answer) :=
  (List.range n).map fun m => .step i (numbered (base + m) 0)

/-- Two payments and a new order at once: the first payment holds the invoice while the order is
created. -/
def mixedDocuments : List (Action DocumentRequest Answer) :=
  [.start (payDocument 4000), .start (payDocument 3000), .start orderDocument] ++
    documentSteps 0 100 1 ++ documentSteps 2 200 4 ++ documentSteps 0 110 3 ++
    documentSteps 2 210 6 ++ documentSteps 0 120 7 ++ documentSteps 1 300 11

theorem documents_serializable_mixed :
    ∃ c, Run DocumentRequest.run (fun _ _ => True) (Config.init oneInvoice) c ∧
      c.db.invoice? .sales 1 = some ⟨10000, 7000⟩ ∧ c.db.purchaseOrders.has 200 = true ∧
      Replayed DocumentRequest.run oneInvoice c.trace c.db := by
  have hplay : ((Config.init oneInvoice).play DocumentRequest.run (fun _ _ => true)
      mixedDocuments).map (fun c => (c.db.invoice? .sales 1, c.db.purchaseOrders.has 200)) =
        some (some ⟨10000, 7000⟩, true) := by
    decide +kernel
  obtain ⟨c, hc, hfacts⟩ := Option.map_eq_some_iff.mp hplay
  obtain ⟨hpaid, horder⟩ := Prod.mk.inj hfacts
  have hrun := Run.of_play (P := fun _ _ => True) (fun _ _ _ => trivial) .refl hc
  exact ⟨c, hrun, hpaid, horder, documents_serializable hrun⟩

/-- As long as fresh identifiers are fresh, every open transaction can take its next step, or it
holds no lock itself and waits for a transaction that can. -/
theorem documents_progress {initial : Db}
    {c : Config Db Key Answer AppError Unit DocumentRequest}
    (hr : Run DocumentRequest.run rowLocks.Fresh (Config.init initial) c) {i : ℕ}
    {s : Session Db Key Answer AppError Unit DocumentRequest} (hs : c.session? i = some s)
    (ans : (q : Ask) → Answer q) :
    (∃ d, c.act DocumentRequest.run (.step i ans) = some d) ∨
      (s.held = [] ∧ ∃ j t, c.session? j = some t ∧ j ≠ i ∧ t.held ≠ [] ∧
        ∀ ans', ∃ d, c.act DocumentRequest.run (.step j ans') = some d) :=
  (Apart.of_run DocumentRequest.follows hr).progress
    (Ordered.init.of_run DocumentRequest.follows hr) hs ans

/-- The second payment waits for the first. -/
theorem documents_progress_payments :
    ∃ c s, Run DocumentRequest.run rowLocks.Fresh (Config.init oneInvoice) c ∧
      c.session? 1 = some s ∧ c.act DocumentRequest.run (.step 1 (numbered 0 0)) = none ∧
      s.held = [] ∧ ∃ j t, c.session? j = some t ∧ j ≠ 1 ∧ t.held ≠ [] ∧
        ∀ ans', ∃ d, c.act DocumentRequest.run (.step j ans') = some d := by
  have hplay : ((Config.init oneInvoice).play DocumentRequest.run quiet
      ([.start (payDocument 4000), .start (payDocument 3000)] ++ documentSteps 0 100 1)).map
        (fun c => ((c.session? 1).isSome,
          (c.act DocumentRequest.run (.step 1 (numbered 0 0))).isNone)) = some (true, true) := by
    decide +kernel
  obtain ⟨c, hc, hfacts⟩ := Option.map_eq_some_iff.mp hplay
  obtain ⟨hsome, hwait⟩ := Prod.mk.inj hfacts
  obtain ⟨s, hs⟩ := Option.isSome_iff_exists.mp hsome
  have hrun := Run.of_play (P := rowLocks.Fresh) (fun _ _ h => .of_quiet h) .refl hc
  refine ⟨c, s, hrun, hs, Option.isNone_iff_eq_none.mp hwait, ?_⟩
  rcases documents_progress hrun hs (numbered 0 0) with ⟨d, hd⟩ | hwaits
  · rw [Option.isNone_iff_eq_none.mp hwait] at hd
    cases hd
  · exact hwaits

end Slab
