import Slab.Erp.Db

/-!
# Services that every document handler calls

Document numbers, the audit trail and the approval state machine.

## Main definitions

- `DocNumberer.nextNumber` — `{prefix}-{yyyymmdd}-{seq:06}`
- `AuditService.recordCreate`, `AuditService.recordUpdated` — audit rows in the same transaction
- `StateTransitions` — submit, approve and reject as status pairs; `poFlow`, `retFlow`, `trFlow`
  and `chFlow`
-/

namespace Slab

open Txn

/-- `if let Some(x) = x`. -/
def ifGiven {α : Type} (x : Option α) (statement : α → Handler Unit) : Handler Unit :=
  match x with
  | some a => statement a
  | none => pure ()

theorem ifGiven_preserves {α τ : Type} {f : Db → τ} (x : Option α)
    {statement : α → Handler Unit} (h : ∀ a, (statement a).Preserves f) :
    (ifGiven x statement).Preserves f := by
  cases x with
  | some a => exact h a
  | none => exact Prog.preserves_ret _

/-- `match` of a field that can be set to null, with the column as it is. -/
def threeState {α : Type} (field : Option (Option α)) (current : Option α) : Option α :=
  match field with
  | some (some v) => some v
  | some none => none
  | none => current

namespace DocNumberer

/-- `{:06}`: zero-padded to six characters, sign included. -/
def pad6 (n : ℤ) : String :=
  let digits := toString n.natAbs
  let sign := if n < 0 then "-" else ""
  sign ++ String.ofList (List.replicate (6 - digits.length - sign.length) '0') ++ digits

def nextSeq (seqName : String) : Handler ℤ := ask (.nextval seqName)

def nextNumber (seqName docPrefix : String) : Handler String := do
  let seq ← nextSeq seqName
  let today ← ask .utcYmd
  pure (docPrefix ++ "-" ++ today ++ "-" ++ pad6 seq)

theorem nextNumber_preserves {τ : Type} (f : Db → τ) (seqName docPrefix : String) :
    (nextNumber seqName docPrefix).Preserves f :=
  (Prog.preserves_ask _).bind fun _ => (Prog.preserves_ask _).bind fun _ => Prog.preserves_ret _

theorem nextNumber_run (seqName docPrefix : String) (v : Db) :
    ∃ code, (nextNumber seqName docPrefix).Runs v v (.ok code) :=
  ⟨_, (0 : ℤ), "", rfl, rfl⟩

end DocNumberer

namespace AuditService

def record (entity : String) (action : AuditAction) (entityId : ID) (operator : Operator)
    (before after : Option Snapshot) : Handler Unit := do
  let id ← ask .newId
  Prog.insert [] (fun _ => none) fun db =>
    { db with
      auditLogs := db.auditLogs ++ [{
        id := id, operatorId := operator.operatorId, action := action.toI16, entity := entity
        entityId := entityId, before := before, after := after, ip := operator.ip
        userAgent := operator.userAgent }] }

/-- A record that has been written is one more audit row. -/
theorem record_runs {entity : String} {action : AuditAction} {entityId : ID} {operator : Operator}
    {before after : Option Snapshot} {v w : Db} {r : Except AppError Unit}
    (h : (record entity action entityId operator before after).Runs v w r) :
    r = .ok () ∧ ∃ row, w = { v with auditLogs := v.auditLogs ++ [row] } := by
  simp only [record, ask, Prog.ask, Prog.call_bind, Prog.ret_bind, Prog.Runs, Prog.insert,
    Prog.writeIf, Prog.refuse, Option.isNone_none, if_true] at h
  obtain ⟨id, rfl, rfl⟩ := h
  exact ⟨rfl, _, rfl⟩

/-- The audit trail takes every row. -/
theorem record_run (entity : String) (action : AuditAction) (entityId : ID) (operator : Operator)
    (before after : Option Snapshot) (v : Db) :
    ∃ w, (record entity action entityId operator before after).Runs v w (.ok ()) := by
  simp only [record, ask, Prog.runs_bind_ok, Prog.runs_ask, Prog.runs_insert_ok]
  exact ⟨_, v, (0 : ℤ), ⟨rfl, 0, rfl⟩, trivial, rfl⟩

def recordCreate (entity : String) (entityId : ID) (operator : Operator) (after : Snapshot) :
    Handler Unit :=
  record entity .created entityId operator none (some after)

def recordUpdated (entity : String) (entityId : ID) (operator : Operator)
    (before after : Snapshot) : Handler Unit :=
  record entity .updated entityId operator (some before) (some after)

def recordDeleted (entity : String) (entityId : ID) (operator : Operator) (before : Snapshot) :
    Handler Unit :=
  record entity .deleted entityId operator (some before) none

/-- Everything but the audit trail. -/
def withoutAudit (db : Db) : Db := { db with auditLogs := [] }

theorem record_preserves (entity : String) (action : AuditAction) (entityId : ID)
    (operator : Operator) (before after : Option Snapshot) :
    (record entity action entityId operator before after).Preserves withoutAudit :=
  (Prog.preserves_ask _).bind fun _ => Prog.preserves_insert (by intro _; rfl)

end AuditService

/-- An approval flow: the draft and submitted statuses, the chain of approvals, and the
statuses that can be rejected. -/
structure StateTransitions where
  submit : ℤ × ℤ
  approvals : List (ℤ × ℤ)
  reject : Option (List ℤ × ℤ)

namespace StateTransitions

variable (flow : StateTransitions)

def submitStatus (current : ℤ) : Except AppError ℤ :=
  if current = flow.submit.1 then .ok flow.submit.2
  else .error (.invalidTransition current "submit")

/-- The first pair that starts at the current status decides. -/
def approveStatus (current : ℤ) : Except AppError ℤ :=
  match flow.approvals.find? fun p => p.1 = current with
  | some p => .ok p.2
  | none => .error (.invalidTransition current "approve")

/-- The statuses that can be rejected are listed; a flow may have none. -/
def rejectStatus (current : ℤ) : Except AppError ℤ :=
  match flow.reject with
  | some (fromStates, target) =>
    if current ∈ fromStates then .ok target else .error (.invalidTransition current "reject")
  | none => .error (.invalidTransition current "reject")

end StateTransitions

/-- Purchase orders: draft, submitted, with the supervisor, approved; the two in the middle can be
rejected. -/
def poFlow : StateTransitions where
  submit := (PurchaseOrderStatus.draft.toI16, PurchaseOrderStatus.submitted.toI16)
  approvals := [
    (PurchaseOrderStatus.submitted.toI16, PurchaseOrderStatus.pendingSupervisor.toI16),
    (PurchaseOrderStatus.pendingSupervisor.toI16, PurchaseOrderStatus.approved.toI16)]
  reject := some (
    [PurchaseOrderStatus.submitted.toI16, PurchaseOrderStatus.pendingSupervisor.toI16],
    PurchaseOrderStatus.rejected.toI16)

/-- Purchase returns: draft, submitted, approved. -/
def retFlow : StateTransitions where
  submit := (PurchaseReturnStatus.draft.toI16, PurchaseReturnStatus.submitted.toI16)
  approvals := [(PurchaseReturnStatus.submitted.toI16, PurchaseReturnStatus.approved.toI16)]
  reject := none

/-- Stock transfers: draft, submitted, approved. -/
def trFlow : StateTransitions where
  submit := (StockTransferStatus.draft.toI16, StockTransferStatus.submitted.toI16)
  approvals := [(StockTransferStatus.submitted.toI16, StockTransferStatus.approved.toI16)]
  reject := none

/-- Inventory checks: draft, submitted, approved. -/
def chFlow : StateTransitions where
  submit := (InventoryCheckStatus.draft.toI16, InventoryCheckStatus.submitted.toI16)
  approvals := [(InventoryCheckStatus.submitted.toI16, InventoryCheckStatus.approved.toI16)]
  reject := none

theorem poFlow_submitStatus {current new : ℤ} :
    poFlow.submitStatus current = .ok new ↔ current = 0 ∧ new = 1 := by
  unfold StateTransitions.submitStatus
  split <;> simp_all [poFlow, PurchaseOrderStatus.toI16, eq_comm]

theorem poFlow_approveStatus {current new : ℤ} :
    poFlow.approveStatus current = .ok new ↔
      current = 1 ∧ new = 2 ∨ current = 2 ∧ new = 3 := by
  unfold StateTransitions.approveStatus
  by_cases h₁ : current = 1
  · simp [poFlow, PurchaseOrderStatus.toI16, h₁, eq_comm]
  · by_cases h₂ : current = 2
    · simp [poFlow, PurchaseOrderStatus.toI16, h₂, eq_comm]
    · simp [poFlow, PurchaseOrderStatus.toI16, h₁, h₂, Ne.symm h₁, Ne.symm h₂]

theorem poFlow_rejectStatus {current new : ℤ} :
    poFlow.rejectStatus current = .ok new ↔ (current = 1 ∨ current = 2) ∧ new = 4 := by
  simp only [StateTransitions.rejectStatus, poFlow, PurchaseOrderStatus.toI16]
  split <;> simp_all [eq_comm]

theorem retFlow_submitStatus {current new : ℤ} :
    retFlow.submitStatus current = .ok new ↔ current = 0 ∧ new = 1 := by
  unfold StateTransitions.submitStatus
  split <;> simp_all [retFlow, PurchaseReturnStatus.toI16, eq_comm]

theorem retFlow_approveStatus {current new : ℤ} :
    retFlow.approveStatus current = .ok new ↔ current = 1 ∧ new = 3 := by
  unfold StateTransitions.approveStatus
  by_cases h : current = 1
  · simp [retFlow, PurchaseReturnStatus.toI16, h, eq_comm]
  · simp [retFlow, PurchaseReturnStatus.toI16, h, Ne.symm h]

theorem trFlow_submitStatus {current new : ℤ} :
    trFlow.submitStatus current = .ok new ↔ current = 0 ∧ new = 1 := by
  unfold StateTransitions.submitStatus
  split <;> simp_all [trFlow, StockTransferStatus.toI16, eq_comm]

theorem trFlow_approveStatus {current new : ℤ} :
    trFlow.approveStatus current = .ok new ↔ current = 1 ∧ new = 3 := by
  unfold StateTransitions.approveStatus
  by_cases h : current = 1
  · simp [trFlow, StockTransferStatus.toI16, h, eq_comm]
  · simp [trFlow, StockTransferStatus.toI16, h, Ne.symm h]

example : DocNumberer.pad6 42 = "000042" := by decide

end Slab
