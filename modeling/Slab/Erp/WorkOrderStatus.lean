import Slab.Txn.Watch
import Slab.Erp.WorkOrders

/-!
# The life of a work order

A work order is drafted, released, completed. Completion locks the order before it looks at its
status; release reads the status in one statement and writes it in another, so that it may write
over a status that somebody else has moved on meanwhile.

## Main definitions

- `statusWatch` — what the row of a work order guards: a status that only rises
- `WorkOrderRequest.FindsDraft` — the release writes over the status that it has read
- `Moves` — the status of an order changes

## Main results

- `status_rises` — along every run in which releases find drafts
- `released_after_completion` — a run in which one does not
-/

namespace Slab

open Txn

/-- The status of a work order, if it is there. -/
def Db.workOrderStatus? (db : Db) (id : ID) : Option ℤ := (db.workOrders.get? id).map WorkOrder.status

/-- Once there is a status, there is one that is not below it. -/
def Rises (s t : Option ℤ) : Prop := ∀ x, s = some x → ∃ y, t = some y ∧ x ≤ y

theorem Rises.refl (s : Option ℤ) : Rises s s := fun x h => ⟨x, h, le_refl x⟩

theorem Rises.trans {s t u : Option ℤ} (h : Rises s t) (h' : Rises t u) : Rises s u := by
  intro x hx
  obtain ⟨y, hy, hxy⟩ := h x hx
  obtain ⟨z, hz, hyz⟩ := h' y hy
  exact ⟨z, hz, hxy.trans hyz⟩

/-- When a release is about to write, the order is still a draft, as the release has read. -/
def WorkOrderRequest.FindsDraft (r : WorkOrderRequest) (vs : List Db) (v : Db) : Prop :=
  match r with
  | .release _ id => vs.length = 1 → v.workOrderStatus? id = some WorkOrderStatus.draft.toI16
  | _ => True

/-- What the row of a work order guards: its status, which only rises. -/
def statusWatch : Watch Db Key (Option ℤ) WorkOrderRequest Answer where
  proj k db :=
    match k with
    | .row .workOrders id => db.workOrderStatus? id
    | _ => none
  about _ _ := false
  inv _ _ _ := True
  moves _ s t := Rises s.1 t.1
  moves_refl _ _ := .refl _
  moves_trans _ _ _ _ h h' := h.trans h'
  pre _ _ _ := True
  assumes _ _ _ _ := True
  auto := WorkOrderRequest.auto
  claims _ _ := []
  expects := WorkOrderRequest.FindsDraft
  claims_nil := Watch.nothing_claimed Db Key WorkOrderRequest

namespace statusWatch

theorem not_strays (k : Key) : ¬statusWatch.Strays k := by
  rintro ⟨r, vs, -, h⟩
  cases h

theorem proj_congr {k : Key} {x y : Db}
    (h : ∀ id, k = .row .workOrders id → x.workOrderStatus? id = y.workOrderStatus? id) :
    statusWatch.proj k x = statusWatch.proj k y := by
  rcases k with _ | ⟨tn, id⟩
  · rfl
  · cases tn <;> first | rfl | exact h id rfl

theorem moves_of {k : Key} {x y : Db} {tr tr' : List (Event WorkOrderRequest Answer)}
    (h : ∀ id, k = .row .workOrders id → Rises (x.workOrderStatus? id) (y.workOrderStatus? id)) :
    statusWatch.moves k (statusWatch.state k x tr) (statusWatch.state k y tr') := by
  rcases k with _ | ⟨tn, id⟩
  · exact .refl _
  · cases tn <;> first | exact Rises.refl _ | exact h id rfl

/-- Whatever leaves the statuses alone is neutral. -/
theorem neutral {α : Type} {p : Handler α} (h : p.Preserves Db.workOrderStatus?) :
    statusWatch.toGuard.Neutral p :=
  .of_preserves h (fun _ _ _ hxy => proj_congr fun id _ => congrFun hxy id) (fun _ _ _ => rfl)
    fun _ _ _ => trivial

/-- Nothing is owed at the end but what the rules ask for. -/
theorem done {r : WorkOrderRequest} {own : List Key} {v : Db}
    {tr : List (Event WorkOrderRequest Answer)} : statusWatch.Done r own v tr :=
  ⟨fun _ _ => trivial, fun _ h => by cases h⟩

/-! ## Writes -/

section Writes

variable {own : List Key} {v : Db} {tr : List (Event WorkOrderRequest Answer)}

theorem status?_insert {row : WorkOrder} (h : v.workOrders.get? row.id = none) (id : ID) :
    ({ v with workOrders := v.workOrders.insert row } : Db).workOrderStatus? id =
      if id = row.id then some row.status else v.workOrderStatus? id := by
  unfold Db.workOrderStatus?
  split
  · next heq => rw [heq, Table.get?_insert_self h, Option.map_some]
  · next hne => rw [Table.get?_insert_of_ne (Ne.symm hne)]

theorem status?_setStatus (id status : ℤ) (db : Db) (j : ID) :
    (setWorkOrderStatus id status db).workOrderStatus? j =
      if j = id then (db.workOrderStatus? id).map fun _ => status
      else db.workOrderStatus? j := by
  unfold Db.workOrderStatus? setWorkOrderStatus
  split
  · next heq =>
    rw [heq, Table.get?_modify_self, Option.map_map, Option.map_map]
    rfl
  · next hne => rw [Table.get?_modify_of_ne hne]

/-- A new status that is not below the present one may be written over it. -/
theorem setStatus_writes {id status : ℤ} (hown : .row .workOrders id ∈ own)
    (hle : ∀ x, v.workOrderStatus? id = some x → x ≤ status) :
    statusWatch.Writes own v tr (setWorkOrderStatus id status) := by
  refine ⟨.of_part hown (Option.map fun _ => status) (fun x => ?_) (fun k hk x => ?_),
    fun k _ => moves_of fun j _ x hx => ?_⟩
  · exact (status?_setStatus id status x id).trans (if_pos rfl)
  · refine proj_congr fun j hj => ?_
    rw [status?_setStatus, if_neg]
    rintro rfl
    exact hk hj
  · rw [status?_setStatus]
    split
    · next heq =>
      rw [heq] at hx
      exact ⟨status, by rw [hx, Option.map_some], hle x hx⟩
    · exact ⟨x, hx, le_refl x⟩

/-- So may a new order. -/
theorem insert_writes {row : WorkOrder} (hown : .row .workOrders row.id ∈ own)
    (hnew : v.workOrders.get? row.id = none) :
    statusWatch.Writes own v tr fun db =>
      { db with workOrders := db.workOrders.insert row } := by
  refine ⟨.of_part hown (fun s => some (s.getD row.status)) (fun x => ?_) (fun k hk x => ?_),
    fun k _ => moves_of fun j _ x hx => ?_⟩
  · change Db.workOrderStatus? _ row.id = some ((x.workOrderStatus? row.id).getD row.status)
    cases hx : x.workOrders.get? row.id with
    | none => simp [Db.workOrderStatus?, hx, Table.get?_insert_self hx]
    | some old => simp [Db.workOrderStatus?, hx, Table.get?_insert_of_some hx]
  · refine proj_congr fun j hj => ?_
    unfold Db.workOrderStatus?
    rw [Table.get?_insert_of_ne]
    rintro rfl
    exact hk hj
  · rw [status?_insert hnew]
    split
    · next heq =>
      rw [heq, Db.workOrderStatus?, hnew] at hx
      cases hx
    · exact ⟨x, hx, le_refl x⟩

end Writes

/-! ## Each request among others -/

section Requests

variable {v : Db} {tr : List (Event WorkOrderRequest Answer)}

theorem release_safe (ctx : Operator) (id : ID) :
    statusWatch.Safe (.release ctx id) (fun _ _ => statusWatch.Done (.release ctx id))
      (WorkOrderRelease.execute ctx id) [] [] v tr := by
  refine Watch.Safe.select_bind fun v₁ tr₁ _ _ => ⟨.of_free rfl fun _ _ => trivial, ?_⟩
  refine Watch.Safe.orFail_bind fun before hbefore => Watch.Safe.ensure_bind fun _ => ?_
  refine Watch.Safe.update_bind fun v₂ tr₂ _ _ hdraft => ?_
  have hstatus : v₂.workOrderStatus? id = some WorkOrderStatus.draft.toI16 := hdraft rfl
  have hhas : v₂.workOrders.has id = true := by
    obtain ⟨row, hrow, -⟩ := Option.map_eq_some_iff.mp hstatus
    exact Table.has_iff.mpr ⟨row, hrow⟩
  refine ⟨setStatus_writes ?_ fun x hx => ?_, .of_free rfl fun _ _ => trivial, ?_⟩
  · simp [lockRow, lockIf, hhas]
  · obtain rfl := Option.some.inj (hstatus.symm.trans hx)
    decide
  · refine Watch.Safe.mono (Watch.Safe.neutral_free rfl (fun _ => rfl) (neutral ?_))
      fun _ _ _ _ _ _ => done
    exact WorkOrderMaterialPick.recordPick_leaves _ _ _ fun _ _ => rfl

theorem report_safe (ar : Arith) (ctx : Operator) (workOrderId operationId : ID)
    (request : WorkOrderOperationReport.ReportRequest) :
    statusWatch.Safe (.report ctx workOrderId operationId request)
      (fun _ _ => statusWatch.Done (.report ctx workOrderId operationId request))
      (WorkOrderOperationReport.execute ar ctx workOrderId operationId request) [] [] v tr := by
  refine Watch.Safe.mono (Watch.Safe.neutral_free rfl (fun _ => rfl) (neutral ?_))
    fun _ _ _ _ _ _ => done
  refine (Prog.preserves_select _).bind fun found => (Prog.preserves_orFail _ _).bind fun _ => ?_
  refine (WorkOrderOperationReport.updateOperation_preserves ar _ _ _ fun _ _ => rfl).bind
    fun _ => ?_
  refine Prog.Preserves.bind ((Prog.preserves_select _).bind fun s => ?_) fun _ => ?_
  · refine Prog.preserves_writeIf fun db => funext fun id => ?_
    unfold WorkOrderOperationReport.writeHeader Db.workOrderStatus?
    rw [Table.get?_modify]
    split
    · next heq =>
      rw [Option.map_map, heq]
      rfl
    · rfl
  · exact WorkOrderMaterialPick.recordPick_leaves _ _ _ fun _ _ => rfl

theorem pick_safe (ar : Arith) (ctx : Operator) (id : ID)
    (request : WorkOrderMaterialPick.PickRequest) :
    statusWatch.Safe (.pick ctx id request)
      (fun _ _ => statusWatch.Done (.pick ctx id request))
      (WorkOrderMaterialPick.execute ar ctx id request) [] [] v tr := by
  refine Watch.Safe.mono (Watch.Safe.neutral rfl (neutral ?_) (.refl [] v tr))
    fun _ _ _ _ _ _ => done
  refine (WorkOrderMaterialPick.lockReleased_preserves _ _).bind fun before => ?_
  refine (Prog.preserves_forEach fun item _ => ?_).bind fun _ => ?_
  · exact WorkOrderMaterialPick.pickItem_preserves ar id item (fun _ _ => rfl) fun _ => rfl
  · exact WorkOrderMaterialPick.recordPick_leaves _ _ _ fun _ _ => rfl

theorem complete_safe (ctx : Operator) (id : ID) :
    statusWatch.Safe (.complete ctx id) (fun _ _ => statusWatch.Done (.complete ctx id))
      (WorkOrderComplete.execute ctx id) [] [] v tr := by
  refine Watch.Safe.bind (Watch.Safe.selectForUpdate_bind rfl fun v₁ tr₁ _ _ _ => ?_)
  refine Watch.Safe.orFail_bind fun before hbefore => Watch.Safe.ensure_bind fun hopen => ?_
  simp only [Bool.not_eq_true', Bool.or_eq_false_iff, decide_eq_false_iff_not, not_lt,
    not_le] at hopen
  have hown : .row .workOrders id ∈ [] ++ lockRow .workOrders id (v₁.workOrders.has id) := by
    simp [lockRow, lockIf, Table.has, hbefore]
  refine Watch.Safe.ret fun v₂ tr₂ hr₂ => ?_
  refine Watch.Safe.update_bind fun v₃ tr₃ hr₃ _ _ => ?_
  -- the order is locked, and its status is the one that was read
  have hstatus : v₃.workOrderStatus? id = some before.status := by
    refine (((hr₂.trans hr₃).kept _ hown).1).trans ?_
    exact congrArg (Option.map WorkOrder.status) hbefore
  refine ⟨setStatus_writes (List.mem_append_left _ hown) fun x hx => ?_, .of_txn rfl, ?_⟩
  · obtain rfl := Option.some.inj (hstatus.symm.trans hx)
    exact hopen.2.le
  · refine Watch.Safe.mono (Watch.Safe.neutral rfl (neutral ?_) (.refl _ _ _))
      fun _ _ _ _ _ _ => done
    exact WorkOrderMaterialPick.recordPick_leaves _ _ _ fun _ _ => rfl

theorem create_safe (ar : Arith) (ctx : Operator)
    (request : WorkOrderCreate.CreateWorkOrderRequest) :
    statusWatch.Safe (.create ctx request) (fun _ _ => statusWatch.Done (.create ctx request))
      ((WorkOrderRequest.create ctx request).run ar) [] [] v tr := by
  refine Watch.Safe.bind (Watch.Safe.ask_bind fun v₁ tr₁ _ => ⟨trivial, fun id =>
    ⟨Guard.Hears.of_none fun _ => rfl, ?_⟩⟩)
  refine Watch.Safe.bind (Watch.Safe.mono (Watch.Safe.neutral rfl (neutral
    (DocNumberer.nextNumber_preserves _ _ _)) (.refl _ _ _)) fun code vs own v tr _ => ?_)
  refine Watch.Safe.writeIf_bind fun v₂ tr₂ _ _ _ => ⟨fun _ _ => .of_txn rfl, fun hfree => ?_⟩
  have hnew : v₂.workOrders.get? id = none := by
    rwa [unique_eq_none, Table.has_eq_false] at hfree
  refine ⟨insert_writes (List.mem_append_right _ List.mem_cons_self) hnew, .of_txn rfl, ?_⟩
  refine Watch.Safe.mono (Watch.Safe.neutral rfl (neutral ?_) (.refl _ _ _))
    fun _ _ _ _ _ _ => Watch.Safe.ret fun _ _ _ => done
  refine (Prog.preserves_forEach fun op _ =>
    WorkOrderCreate.insertOperation_preserves _ _ op fun _ _ => rfl).bind fun _ => ?_
  refine (Prog.preserves_select _).bind fun items => ?_
  refine (Prog.preserves_forEach fun bi _ =>
    WorkOrderCreate.insertMaterial_preserves ar _ _ bi fun _ _ => rfl).bind fun _ => ?_
  refine (Prog.preserves_select _).bind fun row => ?_
  refine (Prog.preserves_orFail _ _).bind fun workOrder => ?_
  refine Prog.Preserves.bind ?_ fun _ => Prog.preserves_ret _
  exact (AuditService.record_preserves _ _ _ _ _ _).factor fun _ => rfl

theorem run_safe (ar : Arith) (r : WorkOrderRequest) :
    statusWatch.Safe r (fun _ _ => statusWatch.Done r) (r.run ar) [] [] v tr := by
  cases r with
  | create ctx request => exact create_safe ar ctx request
  | release ctx id => exact release_safe ctx id
  | pick ctx id request => exact pick_safe ar ctx id request
  | report ctx workOrderId operationId request =>
    exact report_safe ar ctx workOrderId operationId request
  | complete ctx id => exact complete_safe ctx id

end Requests

end statusWatch

/-! ## Along a run -/

/-- What is committed and open among the requests on work orders. -/
abbrev WorkOrderLive := Live Db Key Answer AppError Unit WorkOrderRequest

/-- One action among the requests on work orders. -/
def workOrderStep (ar : Arith) : Machine WorkOrderLive (Action WorkOrderRequest Answer) :=
  Live.act (WorkOrderRequest.run ar) WorkOrderRequest.auto

/-- Releases find drafts. -/
def ReleasesFindDrafts (l : WorkOrderLive) (a : Action WorkOrderRequest Answer) : Prop :=
  l.Meets WorkOrderRequest.FindsDraft a

/-- The step takes the order from status `x` to another status `y`. -/
def Moves (id : ID) (x y : ℤ) (l m : WorkOrderLive) : Prop :=
  l.config.db.workOrderStatus? id = some x ∧ m.config.db.workOrderStatus? id = some y ∧ x ≠ y

theorem rises_of_run {ar : Arith} {db : Db} {l m : WorkOrderLive}
    (hl : Machine.Run (workOrderStep ar) ReleasesFindDrafts (Live.init db) l)
    (hm : Machine.Run (workOrderStep ar) ReleasesFindDrafts l m) (id : ID) :
    Rises (l.config.db.workOrderStatus? id) (m.config.db.workOrderStatus? id) := by
  have hrun : ∀ r v tr, (∀ k, ¬statusWatch.Strays k → statusWatch.Holds k v tr) →
      statusWatch.Safe r (fun _ _ => statusWatch.Done r) (r.run ar) [] [] v tr :=
    fun r _ _ _ => statusWatch.run_safe ar r
  have hok : ∀ l a, ReleasesFindDrafts l a → statusWatch.Allows l a := fun l a h =>
    ⟨h, Watch.apart_of_no_strays statusWatch.not_strays l a,
      Watch.unbroken_of_no_strays statusWatch.not_strays l a⟩
  have hsound : statusWatch.Sound l :=
    (Watch.Sound.init (W := statusWatch) fun _ => trivial).run hrun hok hl
  exact hsound.moves_run hrun hok hm (.row .workOrders id)

/-- Along every run in which releases find drafts, the status of an order never falls, and no
change of it happens twice. -/
theorem status_rises (ar : Arith) (db : Db) {l m n o : WorkOrderLive}
    {a b : Action WorkOrderRequest Answer}
    (hl : Machine.Run (workOrderStep ar) ReleasesFindDrafts (Live.init db) l)
    (ha : ReleasesFindDrafts l a) (hm : workOrderStep ar l a = some m)
    (hn : Machine.Run (workOrderStep ar) ReleasesFindDrafts m n)
    (hb : ReleasesFindDrafts n b) (ho : workOrderStep ar n b = some o) (id : ID) :
    (∀ x, l.config.db.workOrderStatus? id = some x →
      ∃ y, o.config.db.workOrderStatus? id = some y ∧ x ≤ y) ∧
    ∀ x y, Moves id x y l m → ¬Moves id x y n o := by
  have hlm := Machine.Run.refl.tail ha hm
  have hstep := rises_of_run hl hlm id
  have hrest := rises_of_run (hl.tail ha hm) hn id
  have hlast := rises_of_run ((hl.tail ha hm).trans hn) (Machine.Run.refl.tail hb ho) id
  refine ⟨(hstep.trans hrest).trans hlast, fun x y ⟨hx, hy, hne⟩ ⟨hx', _, _⟩ => ?_⟩
  -- the order has left `x` for good
  obtain ⟨y', hy', hxy⟩ := hstep x hx
  obtain rfl := Option.some.inj (hy.symm.trans hy')
  obtain ⟨z, hz, hyz⟩ := hrest y hy
  obtain rfl := Option.some.inj (hx'.symm.trans hz)
  exact hne (le_antisymm hxy hyz)

/-! ## A release that goes through, and one that is overtaken -/

section Examples

/-- A database with one work order, a draft. -/
private def drafted : Db :=
  { Db.empty with
    workOrders := Table.empty.insert {
      id := 1, code := "MO", bomId := 2, itemId := 3, plannedQty := 10, completedQty := 0
      scrapQty := 0, status := 0, dueDate := none, remark := none } }

private def releaser : Operator := { operatorId := 9, ip := none, userAgent := none }

private def worldStep (i : ℕ) : Action WorkOrderRequest Answer := .step i (numbered 100 0)

/-- The test that decides `FindsDraft`. -/
private def findsDraft (r : WorkOrderRequest) (vs : List Db) (v : Db) : Bool :=
  match r with
  | .release _ id => vs.length != 1 || v.workOrderStatus? id == some 0
  | _ => true

private theorem findsDraft_sound (r : WorkOrderRequest) (vs : List Db) (v : Db)
    (h : findsDraft r vs v = true) : r.FindsDraft vs v := by
  cases r with
  | release ctx id =>
    intro hlen
    simpa [findsDraft, hlen, WorkOrderStatus.toI16] using h
  | _ => trivial

/-- The draft is read by a release. -/
private def read : List (Action WorkOrderRequest Answer) :=
  [.start (.release releaser 1), worldStep 0]

/-- Then it is released by another one, and completed. -/
private def overtaken : List (Action WorkOrderRequest Answer) :=
  read ++ [.start (.release releaser 1)] ++ List.replicate 6 (worldStep 1) ++
    [.start (.complete releaser 1)] ++ List.replicate 6 (worldStep 2)

private theorem read_play :
    (((workOrderStep .i64).play (fun l a => l.meets findsDraft a) (Live.init drafted) read).bind
      fun l => if l.meets findsDraft (worldStep 0) then
        (workOrderStep .i64 l (worldStep 0)).bind fun m =>
          if m.meets findsDraft (worldStep 0) then
            (workOrderStep .i64 m (worldStep 0)).map fun o =>
              (l.config.db.workOrderStatus? 1, m.config.db.workOrderStatus? 1,
                o.config.db.workOrderStatus? 1)
          else none
        else none) = some (some 0, some 1, some 1) := by
  decide +kernel

theorem status_rises_released :
    ∃ l m o : WorkOrderLive, Moves 1 0 1 l m ∧ ¬Moves 1 0 1 m o := by
  obtain ⟨l, hl, h⟩ := Option.bind_eq_some_iff.mp read_play
  split at h
  · next ha =>
    obtain ⟨m, hm, h⟩ := Option.bind_eq_some_iff.mp h
    split at h
    · next hb =>
      obtain ⟨o, ho, h⟩ := Option.map_eq_some_iff.mp h
      simp only [Prod.mk.injEq] at h
      have hmoves : Moves 1 0 1 l m := ⟨h.1, h.2.1, by decide⟩
      have hok : ∀ l a, l.meets findsDraft a = true → ReleasesFindDrafts l a := fun _ _ h =>
        Live.meets_of_test findsDraft_sound h
      exact ⟨l, m, o, hmoves, (status_rises .i64 drafted (.of_play hok .refl hl) (hok _ _ ha) hm
        .refl (hok _ _ hb) ho 1).2 0 1 hmoves⟩
    · cases h
  · cases h

private theorem overtaken_play :
    (((workOrderStep .i64).play (fun _ _ => true) (Live.init drafted) overtaken).bind fun l =>
      (workOrderStep .i64 l (worldStep 0)).map fun m =>
        (l.config.db.workOrderStatus? 1, m.config.db.workOrderStatus? 1)) =
      some (some 3, some 1) := by
  decide +kernel

/-- A completed work order is released again: one release has read the draft before another
released it, and writes after it has been completed. -/
theorem released_after_completion :
    ∃ l m : WorkOrderLive,
      Machine.Run (workOrderStep .i64) (fun _ _ => True) (Live.init drafted) l ∧
      workOrderStep .i64 l (.step 0 (numbered 100 0)) = some m ∧
      l.config.db.workOrderStatus? 1 = some WorkOrderStatus.completed.toI16 ∧
      m.config.db.workOrderStatus? 1 = some WorkOrderStatus.released.toI16 := by
  obtain ⟨l, hl, h⟩ := Option.bind_eq_some_iff.mp overtaken_play
  obtain ⟨m, hm, h⟩ := Option.map_eq_some_iff.mp h
  simp only [Prod.mk.injEq] at h
  exact ⟨l, m, .of_play (fun _ _ _ => trivial) .refl hl, hm, h.1, h.2⟩

end Examples

end Slab
