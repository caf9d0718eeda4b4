import Slab.Txn.Chain
import Slab.Erp.Documents

/-!
# The trail of the documents

Every transaction that creates a document, moves it along its flow or deletes it writes an audit row
that holds the document before and after. As these transactions are serializable, the trail is one
story: the records about a document are a chain from what it was to what it is, whatever else was
going on. Only the submission of a purchase return leaves no record.

## Main definitions

- `Db.shown` — what the trail is to say of a row
- `Permitted` — what a record may say of a document before and after
- `ChangeRecorded` — one request has changed one document, and recorded it
- `Trailed` — the trail that has been added tells what has happened

## Main results

- `DocumentRequest.recorded` — every request but one records what it does
- `documents_trail` — the trail along every run
- `sales_order_history` — a sales order has gone through every status up to its own
-/

namespace Slab

open Txn Txn.TwoPhase

/-! ## Rows as they are recorded -/

/-- A row as it is recorded. The record of an invoice leaves out what has been paid, and a deleted
purchase order counts as gone. -/
def Content.snapshot : Content → Option Snapshot
  | salesOrder r => some (.salesOrder r)
  | purchaseOrder r =>
    if r.status = PurchaseOrderStatus.deleted.toI16 then none else some (.purchaseOrder r)
  | salesInvoice r => some (.salesInvoice r.toSalesInvoice)
  | purchaseInvoice r => some (.purchaseInvoice r.toPurchaseInvoice)
  | payment r => some (.payment r)
  | purchaseReturn r => some (.purchaseReturn r.toPurchaseReturn)
  | stockTransfer r => some (.stockTransfer r)
  | inventoryCheck r => some (.inventoryCheck r)
  | bom r => some (.bom r)
  | inspectionTemplate r => some (.inspectionTemplate r)
  | inspectionOrder r => some (.inspectionOrder r)
  | workOrder r => some (.workOrder r)
  | line => none

/-- What the trail is to say of a row. -/
def Db.shown (db : Db) (k : Key) : Option Snapshot := (db.entry k).bind Content.snapshot

/-- The table of an audited entity. -/
def entityTable : String → Option TableName
  | "sales_order" => some .salesOrders
  | "purchase_order" => some .purchaseOrders
  | "purchase_invoice" => some .purchaseInvoices
  | "payment" => some .payments
  | "purchase_return" => some .purchaseReturns
  | "stock_transfer" => some .stockTransfers
  | "inventory_check" => some .inventoryChecks
  | "bom" => some .boms
  | "inspection_template" => some .inspectionTemplates
  | "inspection_order" => some .inspectionOrders
  | "work_order" => some .workOrders
  | _ => none

/-- The row that a record is about. -/
def AuditLog.subject (log : AuditLog) : Option Key :=
  (entityTable log.entity).map fun tn => .row tn log.entityId

/-! ## What a record may say -/

/-- The moves of a flow. -/
def StateTransitions.Moves (flow : StateTransitions) (status new : ℤ) : Prop :=
  flow.submitStatus status = .ok new ∨ flow.approveStatus status = .ok new ∨
    flow.rejectStatus status = .ok new

/-- What a record may say of a document before and after a change: it is created in its first
status, or it moves along its flow with everything else as it was, or a draft is deleted. -/
def Permitted : Option Snapshot → Option Snapshot → Prop
  | none, some (.salesOrder r) => r.status = SalesOrderStatus.draft.toI16
  | some (.salesOrder r), some (.salesOrder r') =>
    ∃ new, soFlow.Moves r.status new ∧ r' = r.setStatus new
  | none, some (.purchaseOrder r) => r.status = PurchaseOrderStatus.draft.toI16
  | some (.purchaseOrder r), some (.purchaseOrder r') =>
    ∃ new, poFlow.Moves r.status new ∧ r' = r.setStatus new
  | some (.purchaseOrder r), none => r.status = PurchaseOrderStatus.draft.toI16
  | none, some (.purchaseInvoice r) => r.status = 0
  | none, some (.payment r) => 0 < r.amount
  | none, some (.purchaseReturn r) => r.status = PurchaseReturnStatus.draft.toI16
  | none, some (.stockTransfer r) =>
    r.status = StockTransferStatus.draft.toI16 ∧ r.approvedAt = none
  | some (.stockTransfer r), some (.stockTransfer r') =>
    r.status = StockTransferStatus.draft.toI16 ∧
      r' = r.setStatus StockTransferStatus.submitted.toI16
  | some (.inventoryCheck r), some (.inventoryCheck r') =>
    r.status = InventoryCheckStatus.draft.toI16 ∧
      r' = r.setStatus InventoryCheckStatus.submitted.toI16
  | none, some (.bom r) => r.status = BomStatus.draft.toI16
  | some (.bom r), some (.bom r') =>
    r.status = BomStatus.draft.toI16 ∧ r' = r.setStatus BomStatus.released.toI16
  | none, some (.inspectionTemplate r) => r.isActive = true
  | some (.inspectionOrder r), some (.inspectionOrder r') =>
    r.status ≠ InspectionOrderStatus.inspected.toI16 ∧ ∃ verdict now,
      (verdict = Verdict.pass.toI16 ∨ verdict = Verdict.fail.toI16) ∧ r' = r.conclude verdict now
  | some (.workOrder r), some (.workOrder r') =>
    WorkOrderStatus.released.toI16 ≤ r.status ∧ r.status < WorkOrderStatus.completed.toI16 ∧
      r' = r.setStatus WorkOrderStatus.completed.toI16
  | _, _ => False

/-- A request has changed the one row `k` that is shown, and recorded it. -/
structure ChangeRecorded (v w : Db) (k : Key) (log : AuditLog) : Prop where
  logs : w.auditLogs = v.auditLogs ++ [log]
  subject : log.subject = some k
  before : log.before = v.shown k
  after : log.after = w.shown k
  others : ∀ k', k' ≠ k → w.shown k' = v.shown k'
  permitted : Permitted log.before log.after

/-- A record that has been written, with what it says. -/
theorem AuditService.record_log {entity : String} {action : AuditAction} {entityId : ID}
    {operator : Operator} {before after : Option Snapshot} {v w : Db} {u : Unit}
    (h : (record entity action entityId operator before after).Runs v w (.ok u)) :
    ∃ log : AuditLog, w = { v with auditLogs := v.auditLogs ++ [log] } ∧ log.entity = entity ∧
      log.entityId = entityId ∧ log.before = before ∧ log.after = after := by
  simp only [record, ask, Prog.runs_bind_ok, Prog.runs_ask, Prog.runs_insert_ok] at h
  obtain ⟨_, id, ⟨rfl, -⟩, -, rfl⟩ := h
  exact ⟨_, rfl, rfl, rfl, rfl, rfl⟩

theorem shown_audit (db : Db) (logs : List AuditLog) :
    ({ db with auditLogs := logs } : Db).shown = db.shown := by
  funext k
  rw [Db.shown, entry_audit, Db.shown]

namespace Slot

variable {ρ : Type} {S : Slot ρ} {v : Db}

theorem Lawful.shown_row (hS : S.Lawful) (db : Db) (id : ID) :
    db.shown (.row S.name id) = ((S.get db).get? id).bind fun r => (S.wrap r).snapshot := by
  rw [Db.shown, hS.entry_row]
  cases (S.get db).get? id <;> rfl

theorem Lawful.shown_insert_of_ne (hS : S.Lawful) (row : ρ) {k : Key}
    (hk : k ≠ .row S.name (S.key row)) :
    (S.set ((S.get v).insert row) v).shown k = v.shown k :=
  congrArg (·.bind Content.snapshot)
    ((hS.writes_insert row (List.mem_singleton_self _)).same k (by simpa using hk) v)

theorem Readable.shown_modify_of_ne (hS : S.Readable) {id : ID} {f : ρ → ρ}
    (hf : ∀ r, S.key (f r) = S.key r) (hparty : ∀ r, (S.wrap (f r)).party = (S.wrap r).party)
    {k : Key} (hk : k ≠ .row S.name id) :
    (S.set ((S.get v).modify id f hf) v).shown k = v.shown k :=
  congrArg (·.bind Content.snapshot)
    ((hS.writes_modify hf hparty (List.mem_singleton_self _)).same k (by simpa using hk) v)

/-- Lines are not shown. -/
theorem Lawful.shown_lines (hS : S.Lawful) (hline : ∀ r, (S.wrap r).snapshot = none)
    (t : Table S.key) (db : Db) : (S.set t db).shown = db.shown := by
  funext k
  by_cases hk : ∃ id, k = .row S.name id
  · obtain ⟨id, rfl⟩ := hk
    have hnone : ∀ x : Db, x.shown (.row S.name id) = none := by
      intro x
      rw [hS.shown_row]
      cases (S.get x).get? id with
      | none => rfl
      | some r => exact hline r
    rw [hnone, hnone]
  · exact congrArg (·.bind Content.snapshot) (hS.entry_set t db k fun id he => hk ⟨id, he⟩)

/-- A document that has been created, its lines stored and read back, is recorded. -/
theorem Readable.recorded_creation (hS : S.Readable) {row : ρ} {u w : Db} {entity : String}
    {operator : Operator} {after : Option Snapshot} {x : Unit}
    (hfree : (S.get v).get? (S.key row) = none)
    (hshown : u.shown = (S.set ((S.get v).insert row) v).shown)
    (hlogs : u.auditLogs = v.auditLogs)
    (hafter : after = (S.wrap row).snapshot) (hpermitted : Permitted none (S.wrap row).snapshot)
    (hentity : entityTable entity = some S.name)
    (hrec : (AuditService.record entity .created (S.key row) operator none after).Runs u w
      (.ok x)) :
    ∃ log, ChangeRecorded v w (.row S.name (S.key row)) log := by
  obtain ⟨log, rfl, he, hid, hb, ha⟩ := AuditService.record_log hrec
  have hself : u.shown (.row S.name (S.key row)) = (S.wrap row).snapshot := by
    rw [hshown, hS.shown_row, hS.get_set, Table.get?_insert_self hfree]
    rfl
  refine ⟨log, ⟨by rw [hlogs], ?_, ?_, ?_, fun k hk => ?_, ?_⟩⟩
  · rw [AuditLog.subject, he, hentity, hid]
    rfl
  · rw [hb, hS.shown_row, hfree]
    rfl
  · rw [ha, hafter, shown_audit, hself]
  · rw [shown_audit, hshown, hS.shown_insert_of_ne row hk]
  · rw [hb, ha, hafter]
    exact hpermitted

/-- A document that has been locked, changed and read back, is recorded. -/
theorem Readable.recorded_change (hS : S.Readable) {row : ρ} {id : ID} {f : ρ → ρ} {u w : Db}
    (hf : ∀ r, S.key (f r) = S.key r) (hparty : ∀ r, (S.wrap (f r)).party = (S.wrap r).party)
    {entity : String} {action : AuditAction} {operator : Operator}
    {before after : Option Snapshot} {x : Unit} (hrow : (S.get v).get? id = some row)
    (hshown : u.shown = (S.set ((S.get v).modify id f hf) v).shown)
    (hlogs : u.auditLogs = v.auditLogs) (hbefore : before = (S.wrap row).snapshot)
    (hafter : after = (S.wrap (f row)).snapshot) (hpermitted : Permitted before after)
    (hentity : entityTable entity = some S.name)
    (hrec : (AuditService.record entity action id operator before after).Runs u w (.ok x)) :
    ∃ log, ChangeRecorded v w (.row S.name id) log := by
  obtain ⟨log, rfl, he, hid, hb, ha⟩ := AuditService.record_log hrec
  have hself : u.shown (.row S.name id) = (S.wrap (f row)).snapshot := by
    rw [hshown, hS.shown_row, hS.get_set, Table.get?_modify_self, hrow]
    rfl
  refine ⟨log, ⟨by rw [hlogs], ?_, ?_, ?_, fun k hk => ?_, ?_⟩⟩
  · rw [AuditLog.subject, he, hentity, hid]
    rfl
  · rw [hb, hS.shown_row, hrow, hbefore]
    rfl
  · rw [ha, hafter, shown_audit, hself]
  · rw [shown_audit, hshown, hS.shown_modify_of_ne hf hparty hk]
  · rw [hb, ha]
    exact hpermitted

end Slot

/-! ## Creation -/

/-- Everything that a record of `S` can say. -/
def recordable {ρ : Type} (S : Slot ρ) (db : Db) :
    (Key → Option Snapshot) × List AuditLog × Table S.key :=
  (db.shown, db.auditLogs, S.get db)

/-- A line is added in another table. -/
theorem insertLine_preserves {ρ τ : Type} {S : Slot ρ} {T : Slot τ} (hT : T.Lawful)
    (hline : ∀ r, (T.wrap r).snapshot = none) (hget : ∀ t db, S.get (T.set t db) = S.get db)
    (keys : List Key) (refusal : Db → Option AppError) (row : τ) :
    (Prog.insert keys refusal fun db => T.set ((T.get db).insert row) db :
      Handler Unit).Preserves (recordable S) := by
  refine Prog.preserves_insert fun db => ?_
  show (_, _, _) = (_, _, _)
  rw [hT.shown_lines hline, hT.logs_set, hget]

theorem snapshot_purchaseOrder {r : PurchaseOrder}
    (h : r.status ≠ PurchaseOrderStatus.deleted.toI16) :
    (Content.purchaseOrder r).snapshot = some (.purchaseOrder r) := if_neg h

/-- The document is created, its lines are added, and it is read back and recorded. -/
theorem Slot.Readable.recorded_stored {ρ : Type} {S : Slot ρ} (hS : S.Readable) (row : ρ)
    {v u w : Db} {lines : Handler Unit} {entity : String} {operator : Operator} {r : ρ} {x : Unit}
    (snapshot : ρ → Snapshot) (hfree : (S.get v).has (S.key row) = false)
    (hlines : lines.Preserves (recordable S))
    (hrun : lines.Runs (S.set ((S.get v).insert row) v) u (.ok ()))
    (hread : (S.get u).get? (S.key row) = some r)
    (hrec : (AuditService.recordCreate entity (S.key row) operator (snapshot r)).Runs u w (.ok x))
    (hsnapshot : (S.wrap row).snapshot = some (snapshot row))
    (hpermitted : Permitted none (some (snapshot row)))
    (hentity : entityTable entity = some S.name) :
    ∃ k log, ChangeRecorded v w k log := by
  have hnone := Table.has_eq_false.mp hfree
  have hsame : recordable S u = recordable S (S.set ((S.get v).insert row) v) := hlines.runs hrun
  obtain ⟨hshown, hrest⟩ := Prod.mk.inj hsame
  obtain ⟨hlogs, hget⟩ := Prod.mk.inj hrest
  rw [hget, hS.get_set, Table.get?_insert_self hnone] at hread
  obtain rfl := Option.some.inj hread
  rw [← hsnapshot] at hpermitted
  exact ⟨_, hS.recorded_creation hnone hshown (hlogs.trans (hS.logs_set _ _)) hsnapshot.symm
    hpermitted hentity hrec⟩

theorem SalesOrderCreate.recorded {ctx : Operator} {request : CreateSalesOrderRequest} {v w : Db}
    {x : CreateSalesOrderResponse} (h : (execute ctx request).Runs v w (.ok x)) :
    ∃ k log, ChangeRecorded v w k log := by
  simp only [execute, recordOrder, Prog.runs_bind_ok, Prog.runs_ensure_ok, ask, Prog.runs_ask,
    insertRow, Prog.runs_insert_ok, unique_eq_none, Prog.runs_select, Prog.runs_orFail_ok,
    Except.ok.injEq, Prog.pure_eq, Prog.runs_ret] at h
  obtain ⟨_, _, ⟨rfl, -⟩, v₁, id, ⟨rfl, -⟩, v₂, code, hcode, v₃, lines, hids, _, _, ⟨hfree, rfl⟩,
    u, _, hlines, _, _, ⟨_, _, ⟨rfl, rfl⟩, _, r, ⟨rfl, hread⟩, hrec⟩, rfl, -⟩ := h
  obtain rfl : v₂ = v₁ := (DocNumberer.nextNumber_preserves (fun db => db) _ _).runs hcode
  obtain rfl : v₃ = v₂ := (lineIds_preserves (fun db => db) _).runs hids
  refine salesOrderSlot_readable.recorded_stored ⟨id, _, _, _⟩ .salesOrder hfree
    (Prog.preserves_forEach fun line _ => ?_) hlines hread hrec rfl rfl rfl
  exact insertLine_preserves salesOrderLineSlot_lawful (fun _ => rfl) (fun _ _ => rfl) _ _ _

theorem PurchaseOrderCreate.recorded {ctx : Operator} {request : CreatePurchaseOrderRequest}
    {v w : Db} {x : CreatePurchaseOrderResponse} (h : (execute ctx request).Runs v w (.ok x)) :
    ∃ k log, ChangeRecorded v w k log := by
  simp only [execute, recordOrder, Prog.runs_bind_ok, Prog.runs_ensure_ok, ask, Prog.runs_ask,
    insertRow, Prog.runs_insert_ok, unique_eq_none, Prog.runs_select, Prog.runs_orFail_ok,
    Except.ok.injEq, Prog.pure_eq, Prog.runs_ret] at h
  obtain ⟨_, _, ⟨rfl, -⟩, v₁, id, ⟨rfl, -⟩, v₂, code, hcode, v₃, lines, hids, _, _, ⟨hfree, rfl⟩,
    u, _, hlines, _, _, ⟨_, _, ⟨rfl, rfl⟩, _, r, ⟨rfl, hread⟩, hrec⟩, rfl, -⟩ := h
  obtain rfl : v₂ = v₁ := (DocNumberer.nextNumber_preserves (fun db => db) _ _).runs hcode
  obtain rfl : v₃ = v₂ := (lineIds_preserves (fun db => db) _).runs hids
  refine purchaseOrderSlot_readable.recorded_stored ⟨id, _, _, _⟩ .purchaseOrder hfree
    (Prog.preserves_forEach fun line _ => ?_) hlines hread hrec
    (snapshot_purchaseOrder (show (0 : ℤ) ≠ _ by decide)) rfl rfl
  exact insertLine_preserves purchaseOrderLineSlot_lawful (fun _ => rfl) (fun _ _ => rfl) _ _ _

theorem invoiceDateOrToday_preserves {τ : Type} (f : Db → τ) (date : Option Date) :
    (invoiceDateOrToday date).Preserves f := by
  cases date with
  | some d => exact Prog.preserves_ret _
  | none => exact Prog.preserves_ask _

theorem PurchaseInvoiceCreate.recorded {ctx : Operator} {request : CreateInvoiceRequest}
    {v w : Db} {x : CreateInvoiceResponse} (h : (execute ctx request).Runs v w (.ok x)) :
    ∃ k log, ChangeRecorded v w k log := by
  simp only [execute, Prog.runs_bind_ok, ask, Prog.runs_ask, insertRow, Prog.runs_insert_ok,
    unique_eq_none, Prog.runs_select, Prog.runs_orFail_ok, Except.ok.injEq, Prog.pure_eq,
    Prog.runs_ret] at h
  obtain ⟨_, _, ⟨rfl, -⟩, v₁, order, ⟨rfl, -⟩, v₂, code, hcode, v₃, id, ⟨rfl, -⟩, v₄, date, hdate,
    _, _, ⟨hfree, rfl⟩, _, _, ⟨rfl, rfl⟩, _, r, ⟨rfl, hread⟩, _, _, hrec, rfl, -⟩ := h
  obtain rfl : v₃ = v₁ := (DocNumberer.nextNumber_preserves (fun db => db) _ _).runs hcode
  obtain rfl : v₄ = v₃ := (invoiceDateOrToday_preserves (fun db => db) _).runs hdate
  exact purchaseInvoiceSlot_readable.recorded_stored (invoice id order.supplierId code date request)
    (fun r => .purchaseInvoice r.toPurchaseInvoice) hfree (Prog.preserves_ret ()) ⟨rfl, rfl⟩ hread
    hrec rfl rfl rfl

theorem PurchaseReturnCreate.recorded {ctx : Operator} {request : CreateReturnRequest}
    {v w : Db} {x : CreateReturnResponse} (h : (execute ctx request).Runs v w (.ok x)) :
    ∃ k log, ChangeRecorded v w k log := by
  simp only [execute, recordHeader, Prog.runs_bind_ok, Prog.runs_select, Prog.runs_orFail_ok,
    Except.ok.injEq, Prog.pure_eq, Prog.runs_ret] at h
  obtain ⟨_, response, hheader, u, _, hlines, _, _, ⟨_, _, ⟨rfl, rfl⟩, _, r, ⟨rfl, hread⟩, hrec⟩,
    rfl, rfl⟩ := h
  obtain ⟨ret, hid, hstatus, hfree, rfl⟩ := createHeader_runs_ok hheader
  rw [← hid] at hread hrec
  refine purchaseReturnSlot_readable.recorded_stored ret
    (fun r => .purchaseReturn r.toPurchaseReturn) (Table.has_eq_false.mpr hfree)
    (Prog.preserves_forEach fun line _ => ?_) hlines hread hrec rfl hstatus rfl
  exact (Prog.preserves_ask _).bind fun _ =>
    insertLine_preserves purchaseReturnLineSlot_lawful (fun _ => rfl) (fun _ _ => rfl) _ _ _

theorem StockTransferCreate.transferDateOrToday_preserves {τ : Type} (f : Db → τ)
    (date : Option Date) : (transferDateOrToday date).Preserves f := by
  cases date with
  | some d => exact Prog.preserves_ret _
  | none => exact Prog.preserves_ask _

theorem StockTransferCreate.recorded {ctx : Operator} {request : CreateTransferRequest}
    {v w : Db} {x : CreateTransferResponse} (h : (execute ctx request).Runs v w (.ok x)) :
    ∃ k log, ChangeRecorded v w k log := by
  simp only [execute, recordTransfer, Prog.runs_bind_ok, ask, Prog.runs_ask, insertRow,
    Prog.runs_insert_ok, unique_eq_none, Prog.runs_select, Prog.runs_orFail_ok, Except.ok.injEq,
    Prog.pure_eq, Prog.runs_ret] at h
  obtain ⟨v₁, code, hcode, v₂, id, ⟨rfl, -⟩, v₃, date, hdate, _, _, ⟨hfree, rfl⟩, u, _, hlines, _,
    _, ⟨_, _, ⟨rfl, rfl⟩, _, r, ⟨rfl, hread⟩, hrec⟩, rfl, -⟩ := h
  obtain rfl : v₂ = v := (DocNumberer.nextNumber_preserves (fun db => db) _ _).runs hcode
  obtain rfl : v₃ = v₂ := (transferDateOrToday_preserves (fun db => db) _).runs hdate
  refine stockTransferSlot_readable.recorded_stored (transferRow id code date request)
    .stockTransfer hfree (Prog.preserves_forEach fun item _ => ?_) hlines hread hrec rfl
    ⟨rfl, rfl⟩ rfl
  exact (Prog.preserves_ask _).bind fun _ =>
    insertLine_preserves stockTransferItemSlot_lawful (fun _ => rfl) (fun _ _ => rfl) _ _ _

theorem BomCreate.recorded {ctx : Operator} {request : CreateBomRequest} {v w : Db}
    {x : CreateBomResponse} (h : (execute ctx request).Runs v w (.ok x)) :
    ∃ k log, ChangeRecorded v w k log := by
  simp only [execute, recordBom, Prog.runs_bind_ok, ask, Prog.runs_ask, insertRow,
    Prog.runs_insert_ok, unique_eq_none, Prog.runs_select, Prog.runs_orFail_ok, Except.ok.injEq,
    Prog.pure_eq, Prog.runs_ret] at h
  obtain ⟨v₁, id, ⟨rfl, -⟩, v₂, code, hcode, _, _, ⟨hfree, rfl⟩, u, _, hlines, _, _,
    ⟨_, _, ⟨rfl, rfl⟩, _, r, ⟨rfl, hread⟩, hrec⟩, rfl, -⟩ := h
  obtain rfl : v₂ = v₁ := (DocNumberer.nextNumber_preserves (fun db => db) _ _).runs hcode
  refine bomSlot_readable.recorded_stored (bomRow id code request) .bom hfree
    (Prog.preserves_forEach fun item _ => ?_) hlines hread hrec rfl rfl rfl
  exact (Prog.preserves_ask _).bind fun _ =>
    insertLine_preserves bomItemSlot_lawful (fun _ => rfl) (fun _ _ => rfl) _ _ _

theorem InspectionTemplateCreate.recorded {ctx : Operator} {request : CreateTemplateRequest}
    {v w : Db} {x : CreateTemplateResponse} (h : (execute ctx request).Runs v w (.ok x)) :
    ∃ k log, ChangeRecorded v w k log := by
  simp only [execute, Prog.runs_bind_ok, DocNumberer.nextSeq, ask, Prog.runs_ask, insertRow,
    Prog.runs_insert_ok, unique_eq_none, Prog.runs_select, Prog.runs_orFail_ok, Except.ok.injEq,
    Prog.pure_eq, Prog.runs_ret] at h
  obtain ⟨v₁, id, ⟨rfl, -⟩, v₂, seq, ⟨rfl, -⟩, _, _, ⟨hfree, rfl⟩, u, _, hlines, _, _, ⟨rfl, rfl⟩,
    _, r, ⟨rfl, hread⟩, _, _, hrec, rfl, -⟩ := h
  refine inspectionTemplateSlot_readable.recorded_stored ⟨id, _, _, _, true⟩
    .inspectionTemplate hfree (Prog.preserves_forEach fun item _ => ?_) hlines hread hrec rfl rfl
    rfl
  exact (Prog.preserves_ask _).bind fun _ =>
    insertLine_preserves inspectionTemplateItemSlot_lawful (fun _ => rfl) (fun _ _ => rfl) _ _ _

/-! ## Changes -/

namespace ChangeRecorded

variable {u v w : Db} {k : Key} {log : AuditLog}

/-- What is not shown may change before the document does. -/
theorem of_start (h : ChangeRecorded u w k log) (hshown : u.shown = v.shown)
    (hlogs : u.auditLogs = v.auditLogs) : ChangeRecorded v w k log :=
  ⟨by rw [h.logs, hlogs], h.subject, by rw [h.before, hshown], h.after,
    fun k' hk => by rw [h.others k' hk, hshown], h.permitted⟩

/-- What is not shown may change after it has been recorded. -/
theorem of_stop (h : ChangeRecorded v u k log) (hshown : w.shown = u.shown)
    (hlogs : w.auditLogs = u.auditLogs) : ChangeRecorded v w k log :=
  ⟨by rw [hlogs, h.logs], h.subject, h.before, by rw [h.after, hshown],
    fun k' hk => by rw [hshown, h.others k' hk], h.permitted⟩

end ChangeRecorded

/-- A change that is not shown. -/
theorem Slot.Readable.shown_modify_of_same {ρ : Type} {S : Slot ρ} (hS : S.Readable) {v : Db}
    {id : ID} {f : ρ → ρ} (hf : ∀ r, S.key (f r) = S.key r)
    (hparty : ∀ r, (S.wrap (f r)).party = (S.wrap r).party)
    (hsame : ∀ r, (S.wrap (f r)).snapshot = (S.wrap r).snapshot) :
    (S.set ((S.get v).modify id f hf) v).shown = v.shown := by
  funext k
  by_cases hk : k = .row S.name id
  · rw [hk, hS.shown_row, hS.get_set, Table.get?_modify_self, hS.shown_row]
    cases (S.get v).get? id with
    | none => rfl
    | some r => exact hsame r
  · exact hS.shown_modify_of_ne hf hparty hk

/-- The document is changed, read back and recorded. -/
theorem Slot.Readable.recorded_moved {ρ : Type} {S : Slot ρ} (hS : S.Readable) {row : ρ} {v w : Db}
    {id : ID} {f : ρ → ρ} {hf : ∀ r, S.key (f r) = S.key r} {entity : String} {operator : Operator}
    {r : ρ} {x : Unit} (snapshot : ρ → Snapshot)
    (hparty : ∀ r, (S.wrap (f r)).party = (S.wrap r).party) (hrow : (S.get v).get? id = some row)
    (hread : (S.get (S.set ((S.get v).modify id f hf) v)).get? id = some r)
    (hrec : (AuditService.recordUpdated entity id operator (snapshot row) (snapshot r)).Runs
      (S.set ((S.get v).modify id f hf) v) w (.ok x))
    (hold : (S.wrap row).snapshot = some (snapshot row))
    (hnew : (S.wrap (f row)).snapshot = some (snapshot (f row)))
    (hpermitted : Permitted (some (snapshot row)) (some (snapshot (f row))))
    (hentity : entityTable entity = some S.name) : ∃ k log, ChangeRecorded v w k log := by
  rw [hS.get_set, Table.get?_modify_self, hrow] at hread
  obtain rfl := Option.some.inj hread
  exact ⟨_, hS.recorded_change hf hparty hrow rfl (hS.logs_set _ _) hold.symm hnew.symm hpermitted
    hentity hrec⟩

theorem PaymentCreate.paymentDateOrToday_preserves {τ : Type} (f : Db → τ) (date : Option Date) :
    (paymentDateOrToday date).Preserves f := by
  cases date with
  | some d => exact Prog.preserves_ret _
  | none => exact Prog.preserves_ask _

/-- What has been paid is not shown. -/
theorem shown_setPaid (t : InvoiceType) (id : ID) (paid : ℤ) (db : Db) :
    (db.setPaid t id paid).shown = db.shown := by
  cases t with
  | sales =>
    exact salesInvoiceSlot_readable.shown_modify_of_same (f := SalesInvoiceRow.setPaid paid)
      (SalesInvoiceRow.setPaid_id paid) (fun _ => rfl) fun _ => rfl
  | purchase =>
    exact purchaseInvoiceSlot_readable.shown_modify_of_same (f := PurchaseInvoiceRow.setPaid paid)
      (PurchaseInvoiceRow.setPaid_id paid) (fun _ => rfl) fun _ => rfl

theorem PaymentCreate.recorded {ctx : Operator} {request : CreatePaymentRequest} {v w : Db}
    {x : CreatePaymentResponse} (h : (execute ctx request).Runs v w (.ok x)) :
    ∃ k log, ChangeRecorded v w k log := by
  simp only [execute, InvoicePort.byId_eq, InvoicePort.lockAmounts, insertPayment, recordPayment,
    updatePaid, Prog.runs_bind_ok, Prog.runs_ensure_ok, Prog.runs_ofExcept,
    Prog.runs_selectForUpdate, ask, Prog.runs_ask, insertRow, Prog.runs_insert_ok, unique_eq_none,
    Prog.runs_select, Prog.runs_orFail_ok, Except.ok.injEq, Prog.runs_update, Prog.pure_eq,
    Prog.runs_ret] at h
  obtain ⟨_, _, ⟨rfl, hpos⟩, _, t, ⟨rfl, -⟩, v₁, inv, ⟨_, _, ⟨rfl, -⟩, rfl, -⟩, _, _, ⟨rfl, -⟩,
    v₂, code, hcode, v₃, id, ⟨rfl, -⟩, v₄, date, hdate, _, _, ⟨hfree, rfl⟩, u, _, ⟨_, _, ⟨rfl,
    rfl⟩, _, r, ⟨rfl, hread⟩, hrec⟩, _, _, ⟨rfl, -⟩, rfl, -⟩ := h
  obtain rfl := (DocNumberer.nextNumber_preserves (fun db => db) _ _).runs hcode
  obtain rfl := (paymentDateOrToday_preserves (fun db => db) _).runs hdate
  have hamount : 0 < request.amount := by simpa using hpos
  obtain ⟨k, log, hlog⟩ := paymentSlot_readable.recorded_stored (payment id code date request)
    .payment hfree (Prog.preserves_ret ()) ⟨rfl, rfl⟩ hread hrec rfl hamount rfl
  refine ⟨k, log, hlog.of_stop (shown_setPaid _ _ _ _) ?_⟩
  cases t <;> rfl

/-- A sales order that moves along its flow. -/
theorem changeSalesOrder_recorded {ctx : Operator} {id : ID} {rule : ℤ → Except AppError ℤ}
    (hrule : ∀ status new, rule status = .ok new → soFlow.Moves status new) {v w : Db}
    {x : SalesActionResponse}
    (h : (changeSalesOrder ctx id (do
      let status ← SalesOrderRepository.lockStatus id
      let newStatus ← Prog.ofExcept (rule status)
      SalesOrderRepository.updateStatus id newStatus)).Runs v w (.ok x)) :
    ∃ k log, ChangeRecorded v w k log := by
  simp only [changeSalesOrder, lockReadSalesOrder, SalesOrderRepository.lockStatus,
    SalesOrderRepository.updateStatus, Prog.runs_bind_ok, Prog.runs_selectForUpdate,
    Prog.runs_orFail_ok, Except.ok.injEq, Prog.runs_ofExcept, Prog.runs_update, Prog.pure_eq,
    Prog.runs_ret] at h
  obtain ⟨_, before, ⟨_, _, ⟨rfl, rfl⟩, rfl, hbefore⟩, _, _, ⟨_, status, ⟨_, row, ⟨_, _, ⟨rfl,
    rfl⟩, rfl, hrow⟩, rfl, rfl⟩, _, new, ⟨rfl, hnew⟩, rfl, -⟩, _, after, ⟨_, _, ⟨rfl, rfl⟩, rfl,
    hafter⟩, _, _, hrec, rfl, -⟩ := h
  obtain rfl := Option.some.inj (hbefore.symm.trans hrow)
  exact salesOrderSlot_readable.recorded_moved (f := SalesOrder.setStatus new) .salesOrder
    (fun _ => rfl) hbefore hafter hrec rfl rfl ⟨new, hrule _ _ hnew.symm, rfl⟩ rfl

/-- The flow of purchase orders never starts from a deleted order, and never leads to one. -/
theorem poFlow_moves {status new : ℤ} (h : poFlow.Moves status new) :
    status ≠ PurchaseOrderStatus.deleted.toI16 ∧ new ≠ PurchaseOrderStatus.deleted.toI16 := by
  rw [StateTransitions.Moves, poFlow_submitStatus, poFlow_approveStatus, poFlow_rejectStatus] at h
  simp only [PurchaseOrderStatus.toI16]
  omega

/-- A purchase order that moves along its flow. -/
theorem changeStatus_recorded {ctx : Operator} {id : ID} {rule : ℤ → Except AppError ℤ}
    (hrule : ∀ status new, rule status = .ok new → poFlow.Moves status new) {v w : Db} {x : ℤ}
    (h : (changeStatus ctx id (PurchaseOrderRepository.transition id rule)).Runs v w (.ok x)) :
    ∃ k log, ChangeRecorded v w k log := by
  simp only [changeStatus, PurchaseOrderRepository.transition, PurchaseOrderRepository.lockOrder,
    PurchaseOrderRepository.lockStatus, PurchaseOrderRepository.updateStatus, Prog.runs_bind_ok,
    Prog.runs_selectForUpdate, Prog.runs_select, Prog.runs_orFail_ok, Except.ok.injEq,
    Prog.runs_ofExcept, Prog.runs_update, Prog.pure_eq, Prog.runs_ret] at h
  obtain ⟨_, before, ⟨_, _, ⟨rfl, rfl⟩, rfl, hbefore⟩, _, _, ⟨_, status, ⟨_, row, ⟨_, _, ⟨rfl,
    rfl⟩, rfl, hrow⟩, rfl, rfl⟩, _, new, ⟨rfl, hnew⟩, _, _, ⟨rfl, -⟩, rfl, -⟩, _, _, ⟨rfl, rfl⟩,
    _, after, ⟨rfl, hafter⟩, _, _, hrec, rfl, -⟩ := h
  obtain rfl := Option.some.inj (hbefore.symm.trans hrow)
  have hmoves := hrule _ _ hnew.symm
  obtain ⟨hstart, hstop⟩ := poFlow_moves hmoves
  exact purchaseOrderSlot_readable.recorded_moved (f := PurchaseOrder.setStatus new) .purchaseOrder
    (fun _ => rfl) hbefore hafter hrec (snapshot_purchaseOrder hstart)
    (snapshot_purchaseOrder hstop) ⟨new, hmoves, rfl⟩ rfl

theorem PurchaseOrderDelete.recorded {ctx : Operator} {id : ID} {v w : Db}
    {x : DeletePurchaseOrderResponse} (h : (execute ctx id).Runs v w (.ok x)) :
    ∃ k log, ChangeRecorded v w k log := by
  simp only [execute, PurchaseOrderRepository.lockOrder, PurchaseOrderRepository.updateStatus,
    Prog.runs_bind_ok, Prog.runs_selectForUpdate, Prog.runs_orFail_ok, Except.ok.injEq,
    Prog.runs_ensure_ok, Prog.runs_update, Prog.pure_eq, Prog.runs_ret] at h
  obtain ⟨_, before, ⟨_, _, ⟨rfl, rfl⟩, rfl, hbefore⟩, _, _, ⟨rfl, hdraft⟩, _, _, ⟨rfl, -⟩, _, _,
    hrec, rfl, -⟩ := h
  have hstatus : before.status = PurchaseOrderStatus.draft.toI16 := by simpa using hdraft
  have hlive : before.status ≠ PurchaseOrderStatus.deleted.toI16 := by
    rw [hstatus]
    decide
  have hgone : none =
      (Content.purchaseOrder (before.setStatus PurchaseOrderStatus.deleted.toI16)).snapshot := by
    simp [Content.snapshot, PurchaseOrder.setStatus]
  have hdeleted : Permitted (some (.purchaseOrder before)) none := hstatus
  have hentity : entityTable "purchase_order" = some purchaseOrderSlot.name := rfl
  exact ⟨_, purchaseOrderSlot_readable.recorded_change (f := PurchaseOrder.setStatus _)
    (PurchaseOrder.setStatus_id PurchaseOrderStatus.deleted.toI16) (fun _ => rfl) hbefore rfl rfl
    (snapshot_purchaseOrder hlive).symm hgone hdeleted hentity hrec⟩

theorem StockTransferSubmit.recorded {ctx : Operator} {id : ID} {v w : Db} {x : Unit}
    (h : (execute ctx id).Runs v w (.ok x)) : ∃ k log, ChangeRecorded v w k log := by
  simp only [execute, StockTransferRepository.lockTransfer, StockTransferRepository.submit,
    StockTransferRepository.lockStatus, StockTransferApprove.recordApproval, Prog.runs_bind_ok,
    Prog.runs_selectForUpdate, Prog.runs_select, Prog.runs_orFail_ok, Except.ok.injEq,
    Prog.runs_ofExcept, Prog.runs_update, Prog.pure_eq, Prog.runs_ret] at h
  obtain ⟨_, before, ⟨_, _, ⟨rfl, rfl⟩, rfl, hbefore⟩, _, _, ⟨_, status, ⟨_, row, ⟨_, _, ⟨rfl,
    rfl⟩, rfl, hrow⟩, rfl, rfl⟩, _, new, ⟨rfl, hnew⟩, rfl, -⟩, _, _, ⟨rfl, rfl⟩, _, after, ⟨rfl,
    hafter⟩, hrec⟩ := h
  obtain rfl := Option.some.inj (hbefore.symm.trans hrow)
  obtain ⟨hstatus, rfl⟩ := trFlow_submitStatus.mp hnew.symm
  exact stockTransferSlot_readable.recorded_moved (f := StockTransfer.setStatus 1) .stockTransfer
    (fun _ => rfl) hbefore hafter hrec rfl rfl ⟨hstatus, rfl⟩ rfl

theorem BomRelease.recorded {ctx : Operator} {id : ID} {v w : Db} {x : BomActionResponse}
    (h : (execute ctx id).Runs v w (.ok x)) : ∃ k log, ChangeRecorded v w k log := by
  simp only [execute, Prog.runs_bind_ok, Prog.runs_selectForUpdate, Prog.runs_select,
    Prog.runs_orFail_ok, Except.ok.injEq, Prog.runs_ensure_ok, Prog.runs_update, Prog.pure_eq,
    Prog.runs_ret] at h
  obtain ⟨_, _, ⟨rfl, rfl⟩, _, before, ⟨rfl, hbefore⟩, _, _, ⟨rfl, hdraft⟩, _, _, ⟨rfl, -⟩, _, _,
    ⟨rfl, rfl⟩, _, after, ⟨rfl, hafter⟩, _, _, hrec, rfl, -⟩ := h
  exact bomSlot_readable.recorded_moved (f := Bom.setStatus BomStatus.released.toI16) .bom
    (fun _ => rfl) hbefore hafter hrec rfl rfl ⟨by simpa using hdraft, rfl⟩ rfl

theorem InventoryCheckSubmit.recorded {ctx : Operator} {id : ID} {v w : Db}
    {x : CheckActionResponse} (h : (execute ctx id).Runs v w (.ok x)) :
    ∃ k log, ChangeRecorded v w k log := by
  simp only [execute, InventoryCheckRepository.lockCheck, InventoryCheckRepository.submit,
    InventoryCheckRepository.lockStatus, recordCheck, Prog.runs_bind_ok,
    Prog.runs_selectForUpdate, Prog.runs_select, Prog.runs_orFail_ok, Except.ok.injEq,
    Prog.runs_ofExcept, Prog.runs_update, Prog.pure_eq, Prog.runs_ret] at h
  obtain ⟨_, before, ⟨_, _, ⟨rfl, rfl⟩, rfl, hbefore⟩, _, _, ⟨_, status, ⟨_, row, ⟨_, _, ⟨rfl,
    rfl⟩, rfl, hrow⟩, rfl, rfl⟩, _, new, ⟨rfl, hnew⟩, rfl, -⟩, _, _, ⟨_, _, ⟨rfl, rfl⟩, _, after,
    ⟨rfl, hafter⟩, hrec⟩, rfl, -⟩ := h
  obtain rfl := Option.some.inj (hbefore.symm.trans hrow)
  obtain ⟨hstatus, rfl⟩ := chFlow_submitStatus.mp hnew.symm
  exact inventoryCheckSlot_readable.recorded_moved (f := InventoryCheck.setStatus 1) .inventoryCheck
    (fun _ => rfl) hbefore hafter hrec rfl rfl ⟨hstatus, rfl⟩ rfl

theorem InspectionOrderComplete.recorded {ctx : Operator} {id : ID}
    {request : CompleteInspectionRequest} {v w : Db} {x : CompleteInspectionResponse}
    (h : (execute ctx id request).Runs v w (.ok x)) : ∃ k log, ChangeRecorded v w k log := by
  simp only [execute, lockPending, Prog.runs_bind_ok, Prog.runs_selectForUpdate, Prog.runs_select,
    Prog.runs_orFail_ok, Except.ok.injEq, Prog.runs_ensure_ok, ask, Prog.runs_ask,
    Prog.runs_update, Prog.pure_eq, Prog.runs_ret] at h
  obtain ⟨_, before, ⟨_, _, ⟨rfl, rfl⟩, _, _, ⟨rfl, hbefore⟩, _, _, ⟨rfl, hopen⟩, rfl, rfl⟩, _, _,
    hresults, u, now, ⟨rfl, -⟩, _, _, ⟨rfl, -⟩, _, _, ⟨rfl, rfl⟩, _, after, ⟨rfl, hafter⟩, _, _,
    hrec, rfl, -⟩ := h
  -- the results are stored first, and nothing of them is shown
  have hsame : (Prog.forEach request.results (insertResult id)).Preserves
      (recordable inspectionOrderSlot) :=
    Prog.preserves_forEach fun r _ => (Prog.preserves_ask _).bind fun _ =>
      insertLine_preserves inspectionResultSlot_lawful (fun _ => rfl) (fun _ _ => rfl) _ _ _
  obtain ⟨hshown, hrest⟩ := Prod.mk.inj (hsame.runs hresults)
  obtain ⟨hlogs, hget⟩ := Prod.mk.inj hrest
  have hrow : u.inspectionOrders.get? id = some before := by
    rw [← hbefore]
    exact congrArg (Table.get? · id) hget
  have hverdict : overall request.results = Verdict.pass.toI16 ∨
      overall request.results = Verdict.fail.toI16 := by
    simp only [overall]
    split
    · exact .inr rfl
    · exact .inl rfl
  obtain ⟨k, log, hlog⟩ := inspectionOrderSlot_readable.recorded_moved
    (f := InspectionOrder.conclude (overall request.results) now) .inspectionOrder (fun _ => rfl)
    hrow hafter hrec rfl rfl ⟨by simpa using hopen, _, now, hverdict, rfl⟩ rfl
  exact ⟨k, log, hlog.of_start hshown hlogs⟩

theorem WorkOrderComplete.recorded {ctx : Operator} {id : ID} {v w : Db} {x : Unit}
    (h : (execute ctx id).Runs v w (.ok x)) : ∃ k log, ChangeRecorded v w k log := by
  simp only [execute, lockOpen, updateWorkOrderStatus, WorkOrderMaterialPick.recordPick,
    Prog.runs_bind_ok, Prog.runs_selectForUpdate, Prog.runs_select, Prog.runs_orFail_ok,
    Except.ok.injEq, Prog.runs_ensure_ok, Prog.runs_update, Prog.pure_eq, Prog.runs_ret] at h
  obtain ⟨_, before, ⟨_, _, ⟨rfl, rfl⟩, _, _, ⟨rfl, hbefore⟩, _, _, ⟨rfl, hopen⟩, rfl, rfl⟩, _, _,
    ⟨rfl, -⟩, _, _, ⟨rfl, rfl⟩, _, after, ⟨rfl, hafter⟩, hrec⟩ := h
  have hrange : WorkOrderStatus.released.toI16 ≤ before.status ∧
      before.status < WorkOrderStatus.completed.toI16 := by
    simpa using hopen
  exact workOrderSlot_readable.recorded_moved
    (f := WorkOrder.setStatus WorkOrderStatus.completed.toI16) .workOrder (fun _ => rfl) hbefore
    hafter hrec rfl rfl ⟨hrange.1, hrange.2, rfl⟩ rfl

/-! ## Requests -/

/-- Nothing is recorded, and nothing that is shown changes but perhaps returns. -/
structure Silent (v w : Db) : Prop where
  logs : w.auditLogs = v.auditLogs
  shown : ∀ tn id, tn ≠ .purchaseReturns → w.shown (.row tn id) = v.shown (.row tn id)

/-- The submission of a return is not recorded. -/
theorem PurchaseReturnApprove.submitExecute_silent {id : ID} {v w : Db} {x : Unit}
    (h : (submitExecute id).Runs v w (.ok x)) : Silent v w := by
  obtain rfl := submitExecute_runs_ok h
  refine ⟨rfl, fun tn j htn => ?_⟩
  refine purchaseReturnSlot_readable.shown_modify_of_ne (f := PurchaseReturnRow.setStatus 1)
    (PurchaseReturnRow.setStatus_id 1) (fun _ => rfl) fun hk => htn ?_
  exact (Key.row.inj hk).1

/-- A handler whose response is left out. -/
theorem recorded_discard {α β : Type} {p : Handler α} {f : α → β} {v w : Db} {x : β}
    (hp : ∀ y, p.Runs v w (.ok y) → ∃ k log, ChangeRecorded v w k log)
    (h : (p >>= fun a => (pure (f a) : Handler β)).Runs v w (.ok x)) :
    ∃ k log, ChangeRecorded v w k log := by
  obtain ⟨_, y, hy, rfl, -⟩ := Prog.runs_bind_ok.mp h
  exact hp y hy

/-- A request that has gone through has recorded the one change that it has made, or it is the
submission of a return. -/
theorem DocumentRequest.recorded {r : DocumentRequest} {v w : Db} {x : Unit}
    (h : r.run.Runs v w (.ok x)) : (∃ k log, ChangeRecorded v w k log) ∨ Silent v w := by
  cases r with
  | createSalesOrder ctx request =>
    exact .inl (recorded_discard (fun _ => SalesOrderCreate.recorded) h)
  | submitSalesOrder ctx id =>
    exact .inl (recorded_discard (fun _ => changeSalesOrder_recorded fun _ _ => .inl) h)
  | approveSalesOrder ctx id =>
    refine .inl (recorded_discard (fun _ => changeSalesOrder_recorded ?_) h)
    exact fun _ _ hrule => .inr (.inl hrule)
  | createPurchaseOrder ctx request =>
    exact .inl (recorded_discard (fun _ => PurchaseOrderCreate.recorded) h)
  | submitPurchaseOrder ctx id =>
    refine .inl (recorded_discard (fun _ => recorded_discard fun _ => changeStatus_recorded ?_) h)
    exact fun _ _ => .inl
  | approvePurchaseOrder ctx id =>
    refine .inl (recorded_discard (fun _ => recorded_discard fun _ => changeStatus_recorded ?_) h)
    exact fun _ _ hrule => .inr (.inl hrule)
  | rejectPurchaseOrder ctx id =>
    refine .inl (recorded_discard (fun _ => recorded_discard fun _ => changeStatus_recorded ?_) h)
    exact fun _ _ hrule => .inr (.inr hrule)
  | deletePurchaseOrder ctx id =>
    exact .inl (recorded_discard (fun _ => PurchaseOrderDelete.recorded) h)
  | createPurchaseInvoice ctx request =>
    exact .inl (recorded_discard (fun _ => PurchaseInvoiceCreate.recorded) h)
  | pay ctx request => exact .inl (recorded_discard (fun _ => PaymentCreate.recorded) h)
  | createReturn ctx request =>
    exact .inl (recorded_discard (fun _ => PurchaseReturnCreate.recorded) h)
  | submitReturn id => exact .inr (PurchaseReturnApprove.submitExecute_silent h)
  | createTransfer ctx request =>
    exact .inl (recorded_discard (fun _ => StockTransferCreate.recorded) h)
  | submitTransfer ctx id => exact .inl (StockTransferSubmit.recorded h)
  | submitCheck ctx id => exact .inl (recorded_discard (fun _ => InventoryCheckSubmit.recorded) h)
  | createBom ctx request => exact .inl (recorded_discard (fun _ => BomCreate.recorded) h)
  | releaseBom ctx id => exact .inl (recorded_discard (fun _ => BomRelease.recorded) h)
  | createTemplate ctx request =>
    exact .inl (recorded_discard (fun _ => InspectionTemplateCreate.recorded) h)
  | completeInspection ctx id request =>
    exact .inl (recorded_discard (fun _ => InspectionOrderComplete.recorded) h)
  | completeWorkOrder ctx id => exact .inl (WorkOrderComplete.recorded h)

/-! ## Trails -/

/-- The records about the row `k`. -/
def trailOf (k : Key) (logs : List AuditLog) : List AuditLog :=
  logs.filter fun log => log.subject = some k

/-- The records that have been added since `initial`: about each row they form a chain from what
was shown then to what is shown now, and all of them say what may be said. Returns are left out. -/
structure Trailed (initial db : Db) (new : List AuditLog) : Prop where
  logs : db.auditLogs = initial.auditLogs ++ new
  linked : ∀ tn id, tn ≠ .purchaseReturns →
    Linked AuditLog.before AuditLog.after (initial.shown (.row tn id)) (trailOf (.row tn id) new)
  stop : ∀ tn id, tn ≠ .purchaseReturns →
    stopOf AuditLog.after (initial.shown (.row tn id)) (trailOf (.row tn id) new) =
      db.shown (.row tn id)
  permitted : ∀ log ∈ new, Permitted log.before log.after
  shown : ∀ log ∈ new, ∀ k, log.subject = some k →
    ∃ v w : Db, log.before = v.shown k ∧ log.after = w.shown k

namespace Trailed

variable {initial v w : Db} {new : List AuditLog}

theorem init (db : Db) : Trailed db db [] :=
  ⟨(List.append_nil _).symm, fun _ _ _ => trivial, fun _ _ _ => rfl, by simp, by simp⟩

theorem silent (h : Trailed initial v new) (hs : Silent v w) : Trailed initial w new :=
  ⟨by rw [hs.logs, h.logs], h.linked, fun tn id htn => by rw [h.stop tn id htn, hs.shown tn id htn],
    h.permitted, h.shown⟩

theorem recorded (h : Trailed initial v new) {k : Key} {log : AuditLog}
    (hr : ChangeRecorded v w k log) : Trailed initial w (new ++ [log]) := by
  refine ⟨by rw [hr.logs, h.logs, List.append_assoc], fun tn id htn => ?_, fun tn id htn => ?_,
    fun l hl => ?_, fun l hl k' hk' => ?_⟩
  -- the trail of `k` grows by the record, the others stay as they are
  · by_cases hk : k = .row tn id
    · have hlog : trailOf (.row tn id) (new ++ [log]) = trailOf (.row tn id) new ++ [log] := by
        simp [trailOf, hr.subject, hk]
      rw [hlog, linked_append_singleton, h.stop tn id htn, hr.before, hk]
      exact ⟨h.linked tn id htn, rfl⟩
    · have hlog : trailOf (.row tn id) (new ++ [log]) = trailOf (.row tn id) new := by
        simp [trailOf, hr.subject, hk]
      rw [hlog]
      exact h.linked tn id htn
  · by_cases hk : k = .row tn id
    · have hlog : trailOf (.row tn id) (new ++ [log]) = trailOf (.row tn id) new ++ [log] := by
        simp [trailOf, hr.subject, hk]
      rw [hlog, stopOf_append, stopOf_cons, stopOf_nil, hr.after, hk]
    · have hlog : trailOf (.row tn id) (new ++ [log]) = trailOf (.row tn id) new := by
        simp [trailOf, hr.subject, hk]
      rw [hlog, h.stop tn id htn, hr.others _ (Ne.symm hk)]
  · rcases List.mem_append.mp hl with hl | hl
    · exact h.permitted l hl
    · rw [List.mem_singleton.mp hl]
      exact hr.permitted
  · rcases List.mem_append.mp hl with hl | hl
    · exact h.shown l hl k' hk'
    · obtain rfl := List.mem_singleton.mp hl
      obtain rfl := Option.some.inj (hr.subject.symm.trans hk')
      exact ⟨v, w, hr.before, hr.after⟩

end Trailed

/-- The trail along every run, however the requests are interleaved. -/
theorem trailed_of_run {initial : Db}
    {ok : Config Db Key Answer AppError Unit DocumentRequest → Action DocumentRequest Answer → Prop}
    {c : Config Db Key Answer AppError Unit DocumentRequest}
    (hr : Run DocumentRequest.run ok (Config.init initial) c) :
    ∃ new, Trailed initial c.db new := by
  have hreplayed := replayed_of_run DocumentRequest.follows hr
  refine hreplayed.induction (P := fun db => ∃ new, Trailed initial db new)
    (fun r v w x h hv => ?_) ⟨[], .init initial⟩
  obtain ⟨new, hnew⟩ := hv
  rcases DocumentRequest.recorded h with ⟨k, log, hlog⟩ | hsilent
  · exact ⟨_, hnew.recorded hlog⟩
  · exact ⟨new, hnew.silent hsilent⟩

/-- Along every run the trail that has been added tells for each document, step by step, how it
has become what it is, and each step is one that the document may take. -/
theorem documents_trail {initial : Db}
    {ok : Config Db Key Answer AppError Unit DocumentRequest → Action DocumentRequest Answer → Prop}
    {c : Config Db Key Answer AppError Unit DocumentRequest}
    (hr : Run DocumentRequest.run ok (Config.init initial) c) :
    ∃ new, c.db.auditLogs = initial.auditLogs ++ new ∧
      (∀ log ∈ new, Permitted log.before log.after) ∧
      ∀ tn id, tn ≠ .purchaseReturns →
        Linked AuditLog.before AuditLog.after (initial.shown (.row tn id))
          (trailOf (.row tn id) new) ∧
        stopOf AuditLog.after (initial.shown (.row tn id)) (trailOf (.row tn id) new) =
          c.db.shown (.row tn id) := by
  obtain ⟨new, h⟩ := trailed_of_run hr
  exact ⟨new, h.logs, h.permitted, fun tn id htn => ⟨h.linked tn id htn, h.stop tn id htn⟩⟩

/-- Two payments and a new order at once leave three records. -/
theorem documents_trail_mixed :
    ∃ c, Run DocumentRequest.run (fun _ _ => True) (Config.init oneInvoice) c ∧
      c.db.auditLogs.length = 3 ∧ ∃ new, c.db.auditLogs = oneInvoice.auditLogs ++ new ∧
        (∀ log ∈ new, Permitted log.before log.after) ∧
        ∀ tn id, tn ≠ .purchaseReturns →
          Linked AuditLog.before AuditLog.after (oneInvoice.shown (.row tn id))
            (trailOf (.row tn id) new) ∧
          stopOf AuditLog.after (oneInvoice.shown (.row tn id)) (trailOf (.row tn id) new) =
            c.db.shown (.row tn id) := by
  have hplay : ((Config.init oneInvoice).play DocumentRequest.run (fun _ _ => True)
      mixedDocuments).map (fun c => c.db.auditLogs.length) = some 3 := by
    decide +kernel
  obtain ⟨c, hc, hlength⟩ := Option.map_eq_some_iff.mp hplay
  have hrun := Run.of_play (P := fun _ _ => True) (fun _ _ _ => trivial) .refl hc
  exact ⟨c, hrun, hlength, documents_trail hrun⟩

/-! ## The history of a sales order -/

theorem shown_salesOrder {db : Db} {id : ID} {s : Snapshot}
    (h : db.shown (.row .salesOrders id) = some s) : ∃ r, s = .salesOrder r := by
  obtain ⟨content, hentry, hs⟩ := Option.bind_eq_some_iff.mp h
  obtain ⟨r, -, rfl⟩ := Option.map_eq_some_iff.mp hentry
  exact ⟨r, (Option.some.inj hs).symm⟩

theorem soFlow_submitStatus {current new : ℤ} :
    soFlow.submitStatus current = .ok new ↔ current = 0 ∧ new = 1 := by
  unfold StateTransitions.submitStatus
  split <;> simp_all [soFlow, SalesOrderStatus.toI16, eq_comm]

theorem soFlow_approveStatus {current new : ℤ} :
    soFlow.approveStatus current = .ok new ↔
      current = 1 ∧ new = 2 ∨ current = 2 ∧ new = 3 := by
  unfold StateTransitions.approveStatus
  by_cases h₁ : current = 1
  · simp [soFlow, SalesOrderStatus.toI16, h₁, eq_comm]
  · by_cases h₂ : current = 2
    · simp [soFlow, SalesOrderStatus.toI16, h₂, eq_comm]
    · simp [soFlow, SalesOrderStatus.toI16, h₁, h₂, Ne.symm h₁, Ne.symm h₂]

/-- Sales orders move up one status at a time. -/
theorem soFlow_moves {status new : ℤ} (h : soFlow.Moves status new) :
    0 ≤ status ∧ status ≤ 2 ∧ new = status + 1 := by
  have hreject : soFlow.rejectStatus status ≠ .ok new := by
    simp [StateTransitions.rejectStatus, soFlow]
  rw [StateTransitions.Moves, soFlow_submitStatus, soFlow_approveStatus] at h
  rcases h with h | h | h
  · omega
  · omega
  · exact absurd h hreject

theorem permitted_salesOrder {s : Snapshot} {r : SalesOrder}
    (h : Permitted (some s) (some (.salesOrder r))) :
    ∃ r' : SalesOrder, s = .salesOrder r' ∧ 0 ≤ r'.status ∧ r'.status ≤ 2 ∧
      r = r'.setStatus (r'.status + 1) := by
  cases s with
  | salesOrder r' =>
    obtain ⟨new, hmoves, rfl⟩ := h
    obtain ⟨hlow, hhigh, rfl⟩ := soFlow_moves hmoves
    exact ⟨r', rfl, hlow, hhigh, rfl⟩
  | _ => exact h.elim

/-- A chain of records from nothing to a sales order, none of which says that it is gone, goes
through the statuses up to its own, one after another. -/
theorem salesOrder_chain {logs : List AuditLog} {r : SalesOrder}
    (hlinked : Linked AuditLog.before AuditLog.after none logs)
    (hpermitted : ∀ log ∈ logs, Permitted log.before log.after)
    (hkept : ∀ log ∈ logs, log.after ≠ none)
    (hstop : stopOf AuditLog.after none logs = some (.salesOrder r)) :
    ∃ n : ℕ, n ≤ 3 ∧ r.status = n ∧ logs.map AuditLog.after =
      (List.range (n + 1)).map fun m => some (.salesOrder (r.setStatus m)) := by
  induction logs using List.reverseRecOn generalizing r with
  | nil => cases hstop
  | append_singleton ts log ih =>
    obtain ⟨hts, hbefore⟩ := linked_append_singleton.mp hlinked
    rw [stopOf_append, stopOf_cons, stopOf_nil] at hstop
    have hlog := hpermitted log (by simp)
    rw [hstop] at hlog
    cases hb : log.before with
    | none =>
      -- nothing is before the creation
      have hempty : ts = [] := by
        rcases List.eq_nil_or_concat' ts with hnil | ⟨ts', last, rfl⟩
        · exact hnil
        · rw [hb, stopOf_append, stopOf_cons, stopOf_nil] at hbefore
          exact absurd hbefore.symm (hkept last (by simp))
      rw [hb] at hlog
      refine ⟨0, by omega, hlog, ?_⟩
      have hself : r.setStatus 0 = r := by
        rw [show (0 : ℤ) = r.status from hlog.symm]
        rfl
      simp [hempty, hstop, hself]
    | some s =>
      rw [hb] at hlog
      obtain ⟨r', rfl, hlow, hhigh, rfl⟩ := permitted_salesOrder hlog
      obtain ⟨n, hn, hstatus, hmap⟩ := ih hts (fun l hl => hpermitted l (by simp [hl]))
        (fun l hl => hkept l (by simp [hl])) (hbefore.symm.trans hb)
      refine ⟨n + 1, by omega, by simp [SalesOrder.setStatus, hstatus], ?_⟩
      have hlast : log.after = some (.salesOrder (r'.setStatus (n + 1 : ℕ))) := by
        rw [hstop, hstatus]
        rfl
      rw [List.map_append, hmap, List.range_succ (n := n + 1), List.map_append, List.map_singleton,
        List.map_singleton, hlast]
      rfl

/-- A sales order that has been created along the run has gone through every status up to its
present one, in order, and the trail shows it as it is now but for its status each time. -/
theorem sales_order_history {initial : Db}
    {ok : Config Db Key Answer AppError Unit DocumentRequest → Action DocumentRequest Answer → Prop}
    {c : Config Db Key Answer AppError Unit DocumentRequest}
    (hr : Run DocumentRequest.run ok (Config.init initial) c) {id : ID} {r : SalesOrder}
    (hnew : initial.salesOrders.get? id = none) (h : c.db.salesOrders.get? id = some r) :
    ∃ new, c.db.auditLogs = initial.auditLogs ++ new ∧ ∃ n : ℕ, n ≤ 3 ∧ r.status = n ∧
      (trailOf (.row .salesOrders id) new).map AuditLog.after =
        (List.range (n + 1)).map fun m => some (.salesOrder (r.setStatus m)) := by
  obtain ⟨new, htrail⟩ := trailed_of_run hr
  have hstart : initial.shown (.row .salesOrders id) = none := by
    rw [Db.shown, Db.entry, hnew]
    rfl
  have hstop : c.db.shown (.row .salesOrders id) = some (.salesOrder r) := by
    rw [Db.shown, Db.entry, h]
    rfl
  have hlinked := htrail.linked .salesOrders id (by decide)
  have hend := htrail.stop .salesOrders id (by decide)
  rw [hstart] at hlinked hend
  refine ⟨new, htrail.logs, salesOrder_chain hlinked (fun log hlog => ?_) (fun log hlog hgone => ?_)
    (hend.trans hstop)⟩
  · exact htrail.permitted log (List.mem_of_mem_filter hlog)
  · -- only purchase orders are recorded as gone
    obtain ⟨hmem, hsubject⟩ := List.mem_filter.mp hlog
    have hlast := htrail.permitted log hmem
    obtain ⟨v, w, hv, -⟩ := htrail.shown log hmem _ (by simpa using hsubject)
    rw [hgone] at hlast
    cases hb : log.before with
    | none =>
      rw [hb] at hlast
      exact hlast
    | some s =>
      obtain ⟨r', rfl⟩ := shown_salesOrder (hv.symm.trans hb)
      rw [hb] at hlast
      exact hlast

/-- A sales order is created, submitted and approved twice, while another one is created; the
approval that was sent last comes first. -/
def approvedSalesOrder : List (Action DocumentRequest Answer) :=
  let create : DocumentRequest := .createSalesOrder ⟨1, none, none⟩ ⟨60, [⟨7, 2, 50⟩]⟩
  let approve : DocumentRequest := .approveSalesOrder ⟨1, none, none⟩ 100
  [.start create] ++ documentSteps 0 100 10 ++
    [.start (.submitSalesOrder ⟨1, none, none⟩ 100), .start approve, .start approve,
      .start create] ++
    documentSteps 1 200 3 ++ documentSteps 4 500 4 ++ documentSteps 1 210 4 ++
    documentSteps 3 300 7 ++ documentSteps 4 510 6 ++ documentSteps 2 400 7

theorem sales_order_history_approved :
    ∃ c r, Run DocumentRequest.run (fun _ _ => True) (Config.init Db.empty) c ∧
      c.db.salesOrders.get? 100 = some r ∧ r.status = 3 ∧
      ∃ new, c.db.auditLogs = Db.empty.auditLogs ++ new ∧ ∃ n : ℕ, n ≤ 3 ∧ r.status = n ∧
        (trailOf (.row .salesOrders 100) new).map AuditLog.after =
          (List.range (n + 1)).map fun m => some (.salesOrder (r.setStatus m)) := by
  have hplay : ((Config.init Db.empty).play DocumentRequest.run (fun _ _ => True)
      approvedSalesOrder).map (fun c => (c.db.salesOrders.get? 100).map SalesOrder.status) =
        some (some 3) := by
    decide +kernel
  obtain ⟨c, hc, hfound⟩ := Option.map_eq_some_iff.mp hplay
  obtain ⟨r, hr, hstatus⟩ := Option.map_eq_some_iff.mp hfound
  have hrun := Run.of_play (P := fun _ _ => True) (fun _ _ _ => trivial) .refl hc
  exact ⟨c, r, hrun, hr, hstatus, sales_order_history hrun rfl hr⟩

end Slab
