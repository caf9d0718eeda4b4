import Slab.Txn.Debt
import Slab.Erp.WorkOrderStatus

/-!
# Reports on the operations of a work order

A report adds to an operation with one statement and sums up the operations on the work order with
the next. Each of them commits on its own. In between the report owes the sums to the work order;
and the sums may be out of date when they are written.

## Main definitions

- `WorkOrderOperationReport.Balanced` — the work order has the sums over its operations
- `reportDebt` — who owes the sums
- `CatchesUp` — no action loses them

## Main results

- `reported_eq_sums` — along every run in which they are not lost
- `reported_behind_sums` — two runs in which they are
-/

namespace Slab

open Txn

/-- The request reports on work order `W`. -/
def WorkOrderRequest.ReportsOn (W : ID) : WorkOrderRequest → Prop
  | .report _ workOrderId _ _ => workOrderId = W
  | _ => False

namespace WorkOrderOperationReport

/-- The quantities on the work order. -/
def reported (workOrderId : ID) (db : Db) : ℤ × ℤ :=
  ((db.workOrders.get? workOrderId).map fun r => (r.completedQty, r.scrapQty)).getD (0, 0)

/-- The quantities on the work order are the sums over its operations. -/
def Balanced (workOrderId : ID) (db : Db) : Prop := reported workOrderId db = sums workOrderId db

instance (workOrderId : ID) : DecidablePred (Balanced workOrderId) := fun db =>
  inferInstanceAs (Decidable (reported workOrderId db = sums workOrderId db))

/-- Why the `UPDATE` of the operation is refused. -/
def operationRefusal (ar : Arith) (operationId workOrderId : ID) (request : ReportRequest)
    (db : Db) : Option AppError :=
  (operation operationId workOrderId db).bind fun op =>
    outOfRange ar (op.completedQty + request.completedQty)
      (op.scrapQty + request.scrapQty.getD 0)

/-- A report on work order `W` has updated its operation, and the sums over the operations have not
changed since it took its snapshot, if it did. -/
def Owes (ar : Arith) (W : ID) : WorkOrderRequest → List Db → Db → Prop
  | .report _ workOrderId operationId request, [_, v], _ =>
    workOrderId = W ∧ operationRefusal ar operationId workOrderId request v = none
  | .report _ workOrderId operationId request, [_, v, u], db =>
    (workOrderId = W ∧ operationRefusal ar operationId workOrderId request v = none) ∧
      sums W u = sums W db
  | _, _, _ => False

/-- When a report is about to write the sums on work order `W`, they are up to date, and can be
stored. -/
def Expects (ar : Arith) (W : ID) : WorkOrderRequest → List Db → Db → Prop
  | .report _ workOrderId _ _, [_, _, u], db =>
    workOrderId = W → sums W u = sums W db ∧ outOfRange ar (sums W u).1 (sums W u).2 = none
  | _, _, _ => True

instance (ar : Arith) (W : ID) (r : WorkOrderRequest) (vs : List Db) (db : Db) :
    Decidable (Owes ar W r vs db) :=
  match r, vs with
  | .report _ _ _ _, [_, _] => inferInstanceAs (Decidable (_ ∧ _))
  | .report _ _ _ _, [_, _, _] => inferInstanceAs (Decidable ((_ ∧ _) ∧ _))
  | .report _ _ _ _, [] | .report _ _ _ _, [_] | .report _ _ _ _, _ :: _ :: _ :: _ :: _
  | .create _ _, _ | .release _ _, _ | .pick _ _ _, _ | .complete _ _, _ =>
    inferInstanceAs (Decidable False)

instance (ar : Arith) (W : ID) (r : WorkOrderRequest) (vs : List Db) (db : Db) :
    Decidable (Expects ar W r vs db) :=
  match r, vs with
  | .report _ _ _ _, [_, _, _] => inferInstanceAs (Decidable (_ → _ ∧ _))
  | .report _ _ _ _, [] | .report _ _ _ _, [_] | .report _ _ _ _, [_, _]
  | .report _ _ _ _, _ :: _ :: _ :: _ :: _
  | .create _ _, _ | .release _ _, _ | .pick _ _ _, _ | .complete _ _, _ =>
    inferInstanceAs (Decidable True)

theorem owes_congr {ar : Arith} {W : ID} {r : WorkOrderRequest} {vs : List Db} {v w : Db}
    (hsums : sums W w = sums W v) (h : Owes ar W r vs v) : Owes ar W r vs w := by
  unfold Owes at h ⊢
  split at h
  · exact h
  · rw [hsums]
    exact h
  · exact h.elim

/-- Only reports on the order owe it the sums. -/
theorem reportsOn_of_owes {ar : Arith} {W : ID} {r : WorkOrderRequest} {vs : List Db} {v : Db}
    (h : Owes ar W r vs v) : r.ReportsOn W := by
  unfold Owes at h
  split at h
  · exact h.1
  · exact h.1.1
  · exact h.elim

/-- Who owes the sums to work order `W`. Work orders are never deleted. -/
def reportDebt (ar : Arith) (W : ID) : Debt Db WorkOrderRequest where
  good := Balanced W
  auto := WorkOrderRequest.auto
  owes := Owes ar W
  expects := Expects ar W
  leads v w := v.workOrders.has W = true → w.workOrders.has W = true
  owes_nil r _ h := by cases r <;> exact h
  owes_auto {r vs _} h := by
    cases r with
    | report => rfl
    | _ => exact h.elim
  leads_refl _ := id
  leads_trans h h' := h' ∘ h

instance (ar : Arith) (W : ID) : DecidablePred (reportDebt ar W).good :=
  inferInstanceAs (DecidablePred (Balanced W))

instance (ar : Arith) (W : ID) (r : WorkOrderRequest) (vs : List Db) (db : Db) :
    Decidable ((reportDebt ar W).owes r vs db) :=
  inferInstanceAs (Decidable (Owes ar W r vs db))

instance (ar : Arith) (W : ID) (r : WorkOrderRequest) (vs : List Db) (db : Db) :
    Decidable ((reportDebt ar W).expects r vs db) :=
  inferInstanceAs (Decidable (Expects ar W r vs db))

/-! ## What keeps the sums and the quantities -/

/-- What is on the work order, if it is there, and the sums over its operations. -/
def footprint (W : ID) (db : Db) : Option (ℤ × ℤ) × (ℤ × ℤ) :=
  ((db.workOrders.get? W).map fun r => (r.completedQty, r.scrapQty), sums W db)

theorem spares {ar : Arith} {W : ID} {v w : Db}
    (hleads : v.workOrders.has W = true → w.workOrders.has W = true)
    (hreported : reported W w = reported W v) (hsums : sums W w = sums W v) :
    (reportDebt ar W).Spares v w := by
  refine ⟨hleads, fun hgood => ?_, fun r vs h => owes_congr hsums h⟩
  change reported W w = sums W w
  rw [hreported, hsums]
  exact hgood

theorem spares_of_footprint {ar : Arith} {W : ID} {v w : Db}
    (h : footprint W w = footprint W v) : (reportDebt ar W).Spares v w := by
  obtain ⟨hrow, hsums⟩ := Prod.mk.inj h
  have hsome := congrArg Option.isSome hrow
  rw [Option.isSome_map, Option.isSome_map] at hsome
  exact spares (fun hv => hsome.trans hv) (congrArg (·.getD (0, 0)) hrow) hsums

theorem quiet_of_preserves {ar : Arith} {W : ID} {α : Type} {p : Handler α}
    (h : p.Preserves (footprint W)) : (reportDebt ar W).Quiet p :=
  .of_preserves h fun _ _ => spares_of_footprint

theorem footprint_modify {W id : ID} {f : WorkOrder → WorkOrder} {hf : ∀ r, (f r).id = r.id}
    (hsame : id = W → ∀ r, ((f r).completedQty, (f r).scrapQty) = (r.completedQty, r.scrapQty))
    (db : Db) :
    footprint W { db with workOrders := db.workOrders.modify id f hf } = footprint W db := by
  refine Prod.ext ?_ rfl
  change Option.map _ ((db.workOrders.modify id f hf).get? W) = _
  rw [Table.get?_modify]
  split
  · next heq =>
    rw [Option.map_map]
    exact congrArg (Option.map · _) (funext (hsame heq.symm))
  · rfl

/-- A new order has no quantities, as one that is not there. -/
theorem spares_insertHeader {ar : Arith} {W : ID} (row : WorkOrder)
    (hzero : (row.completedQty, row.scrapQty) = (0, 0)) (db : Db) :
    (reportDebt ar W).Spares db { db with workOrders := db.workOrders.insert row } := by
  refine spares (fun h => ?_) ?_ rfl
  · rw [Table.has_insert, h]
    simp
  · change Option.getD (Option.map _ ((db.workOrders.insert row).get? W)) _ = _
    cases hget : db.workOrders.get? W with
    | some old => rw [Table.get?_insert_of_some hget, reported, hget]
    | none =>
      rw [reported, hget]
      by_cases hid : row.id = W
      · subst hid
        rw [Table.get?_insert_self hget]
        exact hzero
      · rw [Table.get?_insert_of_ne hid, hget]

/-- An operation without quantities adds nothing to the sums. -/
theorem footprint_insertOperation {W : ID} (op : WorkOrderOperation)
    (hzero : op.completedQty = 0 ∧ op.scrapQty = 0) (db : Db) :
    footprint W { db with workOrderOperations := db.workOrderOperations.insert op } =
      footprint W db := by
  refine Prod.ext rfl (Prod.ext ?_ ?_)
  · change Table.tally _ _ (db.workOrderOperations.insert op) = _
    rw [Table.tally_insert_eq, hzero.1]
    simp [footprint, sums]
  · change Table.tally _ _ (db.workOrderOperations.insert op) = _
    rw [Table.tally_insert_eq, hzero.2]
    simp [footprint, sums]

/-- The operations of another order are not summed up. -/
theorem footprint_writeOperation {W workOrderId : ID} (hne : workOrderId ≠ W) (operationId : ID)
    (request : ReportRequest) (db : Db) :
    footprint W (writeOperation operationId workOrderId request db) = footprint W db := by
  unfold writeOperation
  split
  · next hsome =>
    obtain ⟨op, hop⟩ := Option.isSome_iff_exists.mp hsome
    obtain ⟨hget, horder⟩ := Option.filter_eq_some_iff.mp hop
    have hout : op.workOrderId ≠ W := by
      rw [of_decide_eq_true horder]
      exact hne
    have hsame : ∀ g : WorkOrderOperation → ℤ,
        (db.workOrderOperations.modify operationId
          (WorkOrderOperation.report request.completedQty (request.scrapQty.getD 0)
            WorkOrderOperationStatus.completed.toI16)
          (WorkOrderOperation.report_id _ _ _)).tally (fun op => op.workOrderId = W) g =
        db.workOrderOperations.tally (fun op => op.workOrderId = W) g := by
      intro g
      rw [Table.tally_modify hget]
      simp [hout, WorkOrderOperation.report]
    exact Prod.ext rfl (Prod.ext (hsame _) (hsame _))
  · rfl

/-! ## The requests -/

section Requests

variable (ar : Arith) (W : ID)

theorem recordPick_quiet (ctx : Operator) (id : ID) (before : WorkOrder) :
    (reportDebt ar W).Quiet (WorkOrderMaterialPick.recordPick ctx id before) :=
  quiet_of_preserves (WorkOrderMaterialPick.recordPick_leaves _ _ _ fun _ _ => rfl)

theorem updateStatus_preserves (id : ID) (status : ℤ) :
    (updateWorkOrderStatus id status).Preserves (footprint W) :=
  Prog.preserves_update fun db => footprint_modify (f := WorkOrder.setStatus status)
    (by intro _ _; rfl) db

theorem create_quiet (ctx : Operator) (request : WorkOrderCreate.CreateWorkOrderRequest) :
    (reportDebt ar W).Quiet ((WorkOrderRequest.create ctx request).run ar) := by
  refine Debt.Quiet.bind ?_ fun _ => trivial
  refine Debt.Quiet.bind (quiet_of_preserves (Prog.preserves_ask _)) fun id => ?_
  refine Debt.Quiet.bind (quiet_of_preserves (DocNumberer.nextNumber_preserves _ _ _))
    fun code => ?_
  refine Debt.Quiet.bind (Debt.quiet_writeIf fun db => spares_insertHeader _ rfl db)
    fun _ => ?_
  refine quiet_of_preserves ?_
  refine (Prog.preserves_forEach fun op _ => ?_).bind fun _ => ?_
  · exact (Prog.preserves_ask _).bind fun opId => Prog.preserves_insert fun db =>
      footprint_insertOperation _ ⟨rfl, rfl⟩ db
  · refine (Prog.preserves_select _).bind fun items => ?_
    refine (Prog.preserves_forEach fun bi _ =>
      WorkOrderCreate.insertMaterial_preserves ar _ _ bi fun _ _ => rfl).bind fun _ => ?_
    refine (Prog.preserves_select _).bind fun row => (Prog.preserves_orFail _ _).bind fun _ => ?_
    refine Prog.Preserves.bind ?_ fun _ => Prog.preserves_ret _
    exact (AuditService.record_preserves _ _ _ _ _ _).factor fun _ => rfl

theorem pick_quiet (ctx : Operator) (id : ID) (request : WorkOrderMaterialPick.PickRequest) :
    (reportDebt ar W).Quiet (WorkOrderMaterialPick.execute ar ctx id request) := by
  refine quiet_of_preserves ?_
  refine (WorkOrderMaterialPick.lockReleased_preserves _ _).bind fun before => ?_
  refine (Prog.preserves_forEach fun item _ => ?_).bind fun _ => ?_
  · exact WorkOrderMaterialPick.pickItem_preserves ar id item (fun _ _ => rfl) fun _ => rfl
  · exact WorkOrderMaterialPick.recordPick_leaves _ _ _ fun _ _ => rfl

theorem complete_quiet (ctx : Operator) (id : ID) :
    (reportDebt ar W).Quiet (WorkOrderComplete.execute ctx id) := by
  refine quiet_of_preserves (Prog.Preserves.bind ?_ fun before => ?_)
  · exact (Prog.preserves_selectForUpdate _ _).bind fun _ => (Prog.preserves_orFail _ _).bind
      fun _ => (Prog.preserves_ensure _ _).bind fun _ => Prog.preserves_ret _
  · exact (updateStatus_preserves W _ _).bind fun _ =>
      WorkOrderMaterialPick.recordPick_leaves _ _ _ fun _ _ => rfl

theorem release_safe (ctx : Operator) (id : ID) (v : Db) :
    (reportDebt ar W).Safe (.release ctx id) (WorkOrderRelease.execute ctx id) [] v := by
  refine .of_quiet (quiet_of_preserves ?_) fun _ _ howes => howes
  refine (Prog.preserves_select _).bind fun found => (Prog.preserves_orFail _ _).bind fun _ => ?_
  refine (Prog.preserves_ensure _ _).bind fun _ => ?_
  exact (updateStatus_preserves W _ _).bind fun _ =>
    WorkOrderMaterialPick.recordPick_leaves _ _ _ fun _ _ => rfl

/-- A report on another order. -/
theorem report_safe_of_ne (ctx : Operator) {workOrderId : ID} (hne : workOrderId ≠ W)
    (operationId : ID) (request : ReportRequest) (v : Db) :
    (reportDebt ar W).Safe (.report ctx workOrderId operationId request)
      (execute ar ctx workOrderId operationId request) [] v := by
  refine .of_quiet (quiet_of_preserves ?_) fun ws u => ?_
  · refine (Prog.preserves_select _).bind fun found => (Prog.preserves_orFail _ _).bind
      fun _ => ?_
    refine Prog.Preserves.bind (Prog.preserves_writeIf fun db =>
      footprint_writeOperation hne _ _ db) fun _ => ?_
    refine Prog.Preserves.bind ((Prog.preserves_select _).bind fun s => ?_) fun _ => ?_
    · exact Prog.preserves_writeIf fun db =>
        footprint_modify (fun heq => absurd heq hne) db
    · exact WorkOrderMaterialPick.recordPick_leaves _ _ _ fun _ _ => rfl
  · exact fun howes => hne (reportsOn_of_owes howes)

/-- The work order has the sums that the report writes. -/
theorem balanced_writeHeader {v : Db} {s : ℤ × ℤ} (hhas : v.workOrders.has W = true)
    (hs : s = sums W v) : Balanced W (writeHeader W s v) := by
  obtain ⟨row, hrow⟩ := Table.has_iff.mp hhas
  change Option.getD (Option.map _ ((v.workOrders.modify W (WorkOrder.setQuantities s.1 s.2)
    (WorkOrder.setQuantities_id s.1 s.2)).get? W)) _ = sums W v
  rw [Table.get?_modify_self, hrow, ← hs]
  rfl

theorem has_writeHeader {v : Db} {s : ℤ × ℤ} (h : v.workOrders.has W = true) :
    (writeHeader W s v).workOrders.has W = true := by
  unfold writeHeader
  rw [Table.has, Table.get?_modify_self, Option.isSome_map]
  exact h

/-- The statements of `updateHeader`, one after the other. -/
theorem updateHeader_bind (p : Handler Unit) :
    (updateHeader ar W >>= fun _ => p) = Prog.select (sums W) >>= fun s =>
      Prog.writeIf (fun db => lockRow .workOrders W (db.workOrders.has W))
        (fun db => lockRow .workOrders W (db.workOrders.has W))
        (fun db => if db.workOrders.has W then outOfRange ar s.1 s.2 else none)
        (writeHeader W s) >>= fun _ => p := rfl

/-- A report on the order owes the sums once it has updated its operation, until it writes
them. -/
theorem report_safe (ctx : Operator) (operationId : ID) (request : ReportRequest) (v : Db) :
    (reportDebt ar W).Safe (.report ctx W operationId request)
      (execute ar ctx W operationId request) [] v := by
  refine Debt.Safe.select_bind fun v₀ _ => ⟨id, ?_⟩
  refine Debt.Safe.orFail_bind fun before hbefore => ?_
  have hhas : v₀.workOrders.has W = true := Table.has_iff.mpr ⟨before, hbefore⟩
  refine Debt.Safe.writeIf_bind fun v₁ h₁ => ⟨fun e _ => ?_, fun hok => ?_⟩
  · exact ⟨id, fun _ _ => .inl, fun _ h => h.imp_right False.elim⟩
  have horders : (writeOperation operationId W request v₁).workOrders = v₁.workOrders := by
    unfold writeOperation
    split <;> rfl
  have hleads : v₁.workOrders.has W = true →
      (writeOperation operationId W request v₁).workOrders.has W = true := by
    rw [horders]
    exact id
  refine ⟨⟨hleads, fun _ _ _ => .inr ⟨rfl, hok⟩, fun _ _ => .inr ⟨rfl, hok⟩⟩, ?_⟩
  rw [updateHeader_bind]
  refine Debt.Safe.select_bind fun v₂ h₂ => ⟨fun howes => ⟨howes, rfl⟩, ?_⟩
  have hhas₂ : v₂.workOrders.has W = true := h₂ (hleads (h₁ hhas))
  refine Debt.Safe.writeIf_bind fun v₃ h₃ => ⟨fun e hrefused => ?_, fun _ => ⟨?_, ?_⟩⟩
  · refine ⟨id, fun _ _ => .inl, fun hexp => ?_⟩
    -- what is up to date can be stored
    rw [if_pos (h₃ hhas₂), (hexp rfl).2] at hrefused
    cases hrefused
  · exact ⟨has_writeHeader W, fun r vs howes => .inl (owes_congr (v := v₃) rfl howes),
      fun hexp _ => .inl (balanced_writeHeader W (h₃ hhas₂) (hexp rfl).1)⟩
  · exact .of_quiet (recordPick_quiet ar W ctx W before) fun _ _ howes => howes

theorem run_quiet (r : WorkOrderRequest) (h : r.auto = false) :
    (reportDebt ar W).Quiet (r.run ar) := by
  cases r with
  | create ctx request => exact create_quiet ar W ctx request
  | pick ctx id request => exact pick_quiet ar W ctx id request
  | complete ctx id => exact complete_quiet ar W ctx id
  | release | report => cases h

theorem run_safe (r : WorkOrderRequest) (v : Db) (h : r.auto = true) :
    (reportDebt ar W).Safe r (r.run ar) [] v := by
  cases r with
  | release ctx id => exact release_safe ar W ctx id v
  | report ctx workOrderId operationId request =>
    by_cases hW : workOrderId = W
    · subst hW
      exact report_safe ar _ ctx operationId request v
    · exact report_safe_of_ne ar W ctx hW operationId request v
  | create | pick | complete => cases h

end Requests

end WorkOrderOperationReport

/-! ## Along a run -/

/-- The sums that are owed to work order `W` do not get lost with the action. -/
def CatchesUp (ar : Arith) (W : ID) (l : WorkOrderLive) (a : Action WorkOrderRequest Answer) :
    Prop :=
  (WorkOrderOperationReport.reportDebt ar W).Allows l a

open WorkOrderOperationReport in
/-- Along every run in which the sums do not get lost, the work order has them whenever no report
on it is in progress. -/
theorem reported_eq_sums (ar : Arith) (W : ID) {db : Db} (hdb : Balanced W db) {l : WorkOrderLive}
    (h : Machine.Run (workOrderStep ar) (CatchesUp ar W) (Live.init db) l)
    (hidle : ∀ i s, l.config.session? i = some s → ¬s.request.ReportsOn W) :
    reported W l.config.db = sums W l.config.db := by
  have hsound : (reportDebt ar W).Sound l :=
    (Debt.Sound.init (D := reportDebt ar W) hdb).run (fun r v => run_safe ar W r v)
      (run_quiet ar W) (fun _ _ => id) h
  refine hsound.good fun i ⟨s, hs, howes⟩ => hidle i s hs ?_
  exact reportsOn_of_owes howes

/-! ## Reports that overlap -/

section Examples

open WorkOrderOperationReport

/-- A released work order with two operations. -/
private def producing : Db :=
  { Db.empty with
    workOrders := Table.empty.insert {
      id := 1, code := "MO", bomId := 2, itemId := 3, plannedQty := 10, completedQty := 0
      scrapQty := 0, status := 1, dueDate := none, remark := none }
    workOrderOperations := (Table.empty.insert {
      id := 4, workOrderId := 1, name := "saw", sequence := 1, plannedQty := 10
      completedQty := 0, scrapQty := 0, status := 0 }).insert {
      id := 5, workOrderId := 1, name := "drill", sequence := 2, plannedQty := 10
      completedQty := 0, scrapQty := 0, status := 0 } }

private def worker : Operator := { operatorId := 9, ip := none, userAgent := none }

private def startReport (operationId : ID) (completedQty : ℤ) : Action WorkOrderRequest Answer :=
  .start (.report worker 1 operationId { completedQty := completedQty, scrapQty := none })

private def reportStep (i : ℕ) : Action WorkOrderRequest Answer :=
  .step i (numbered (100 * (i + 1)) 0)

/-- Two reports, of which the second one takes its snapshot before the first writes its sums, and
writes after it. -/
private def caughtUp : List (Action WorkOrderRequest Answer) :=
  [startReport 4 5, startReport 5 3] ++ List.replicate 3 (reportStep 0) ++
    List.replicate 3 (reportStep 1) ++ List.replicate 5 (reportStep 0) ++
    List.replicate 5 (reportStep 1)

/-- The same two, where the first one writes its sums last. -/
private def overtakenReport : List (Action WorkOrderRequest Answer) :=
  [startReport 4 5, startReport 5 3] ++ List.replicate 3 (reportStep 0) ++
    List.replicate 8 (reportStep 1) ++ List.replicate 5 (reportStep 0)

/-- A report that is lost after it has updated its operation. -/
private def interrupted : List (Action WorkOrderRequest Answer) :=
  [startReport 4 5] ++ List.replicate 2 (reportStep 0) ++ [.abort 0]

private theorem caughtUp_play :
    ((workOrderStep .i64).play (reportDebt .i64 1).allows (Live.init producing) caughtUp).map
      (fun l => (l.config.sessions.map Option.isSome, reported 1 l.config.db,
        sums 1 l.config.db)) = some ([false, false], (8, 0), (8, 0)) := by
  decide +kernel

/-- Nobody is at work. -/
private theorem idle_of_map {l : WorkOrderLive}
    (h : ∀ b ∈ l.config.sessions.map Option.isSome, b = false) (i : ℕ) :
    l.config.session? i = none := by
  unfold Config.session?
  cases hi : l.config.sessions[i]? with
  | none => rfl
  | some s =>
    have hnone := h _ (List.mem_map_of_mem (List.mem_of_getElem? hi))
    rw [Option.isSome_eq_false_iff, Option.isNone_iff_eq_none] at hnone
    rw [hnone]
    rfl

theorem reported_eq_sums_caughtUp :
    ∃ l : WorkOrderLive, reported 1 l.config.db = sums 1 l.config.db ∧
      sums 1 l.config.db = (8, 0) := by
  obtain ⟨l, hl, h⟩ := Option.map_eq_some_iff.mp caughtUp_play
  simp only [Prod.mk.injEq] at h
  have hidle : ∀ i s, l.config.session? i = some s → ¬s.request.ReportsOn 1 := by
    intro i s hs
    rw [idle_of_map (by simp [h.1]) i] at hs
    cases hs
  have hbalanced : Balanced 1 producing := by decide +kernel
  refine ⟨l, reported_eq_sums .i64 1 hbalanced ?_ hidle, h.2.2⟩
  exact .of_play (fun _ _ => Debt.allows_sound) .refl hl

private theorem overtakenReport_play :
    ((workOrderStep .i64).play (fun _ _ => true) (Live.init producing) overtakenReport).map
      (fun l => (l.config.sessions.map Option.isSome, reported 1 l.config.db,
        sums 1 l.config.db)) = some ([false, false], (5, 0), (8, 0)) := by
  decide +kernel

private theorem interrupted_play :
    ((workOrderStep .i64).play (fun _ _ => true) (Live.init producing) interrupted).map
      (fun l => (l.config.sessions.map Option.isSome, reported 1 l.config.db,
        sums 1 l.config.db)) = some ([false], (0, 0), (5, 0)) := by
  decide +kernel

/-- The work order falls behind its operations for good: because two reports overlap, and because
one is lost between its statements. -/
theorem reported_behind_sums :
    Balanced 1 producing ∧
    (∃ l : WorkOrderLive,
      Machine.Run (workOrderStep .i64) (fun _ _ => True) (Live.init producing) l ∧
      (∀ i, l.config.session? i = none) ∧
      reported 1 l.config.db = (5, 0) ∧ sums 1 l.config.db = (8, 0)) ∧
    ∃ l : WorkOrderLive,
      Machine.Run (workOrderStep .i64) (fun _ _ => True) (Live.init producing) l ∧
      (∀ i, l.config.session? i = none) ∧
      reported 1 l.config.db = (0, 0) ∧ sums 1 l.config.db = (5, 0) := by
  refine ⟨by decide +kernel, ?_, ?_⟩
  · obtain ⟨l, hl, h⟩ := Option.map_eq_some_iff.mp overtakenReport_play
    simp only [Prod.mk.injEq] at h
    exact ⟨l, .of_play (fun _ _ _ => trivial) .refl hl, idle_of_map (by simp [h.1]), h.2⟩
  · obtain ⟨l, hl, h⟩ := Option.map_eq_some_iff.mp interrupted_play
    simp only [Prod.mk.injEq] at h
    exact ⟨l, .of_play (fun _ _ _ => trivial) .refl hl, idle_of_map (by simp [h.1]), h.2⟩

end Examples

end Slab
