import Slab.Erp.PickLines

/-!
# What is picked is journalled

Each request on work orders keeps what the rows of work orders and materials guard. What the
materials of an order have together then is what was journalled for it: each pick on record has
taken its lines from materials of its own order.

## Main results

- `pickWatch.run_safe` — each request among others
- `pickWatch.pickedTotal_eq_journal` — the sums
- `picks_counted` — along every run in which picks ask for what they may
- `picked_after_completion` — runs in which one does not
-/

namespace Slab

open Txn
open WorkOrderMaterialPick (names asks total picked required pick? eventAsks eventTotal PickItem
  PickRequest)

namespace pickWatch

variable {ar : Arith} {db : Db}

/-! ## The status of an order -/

section Status

variable {own : List Key} {v : Db} {tr : List (Event WorkOrderRequest Answer)}

theorem proj_setStatus_of_ne {id : ID} {k : Key} (h : k ≠ workOrderKey id) (status : ℤ) (x : Db) :
    (pickWatch ar db).proj k (setWorkOrderStatus id status x) = (pickWatch ar db).proj k x := by
  rcases k with _ | ⟨tn, j⟩
  · rfl
  · cases tn with
    | workOrders =>
      refine congrArg (PickPart.order · _) ((statusWatch.status?_setStatus id status x j).trans ?_)
      rw [if_neg]
      rintro rfl
      exact h rfl
    | _ => rfl

theorem proj_setStatus_self (id status : ℤ) (x : Db) :
    (pickWatch ar db).proj (workOrderKey id) (setWorkOrderStatus id status x) =
      .order ((x.workOrderStatus? id).map fun _ => status) (x.pickJournal id) :=
  congrArg (PickPart.order · _) ((statusWatch.status?_setStatus id status x id).trans (if_pos rfl))

theorem setStatus_writes {id : ID} (hown : workOrderKey id ∈ own) (status : ℤ) :
    (pickWatch ar db).Writes own v tr (setWorkOrderStatus id status) := by
  refine ⟨.of_part hown (.mapOrder (Option.map fun _ => status) fun journal => journal)
    (fun x => proj_setStatus_self id status x)
    (fun k hk x => proj_setStatus_of_ne hk status x), fun k _ => ?_⟩
  show ((pickWatch ar db).proj k v).Leads ((pickWatch ar db).proj k _)
  by_cases hk : k = workOrderKey id
  · subst hk
    rw [proj_setStatus_self]
    show (PickPart.order (v.workOrderStatus? id) _).Leads _
    cases v.workOrderStatus? id with
    | none => trivial
    | some x => exact ⟨_, _, rfl⟩
  · rw [proj_setStatus_of_ne hk]
    exact .refl _

end Status

/-! ## Each request among others -/

section Requests

variable {v : Db} {tr : List (Event WorkOrderRequest Answer)}

theorem recordPick_neutral (ctx : Operator) (id : ID) (before : WorkOrder) :
    (pickWatch ar db).toGuard.Neutral (WorkOrderMaterialPick.recordPick ctx id before) :=
  neutral (WorkOrderMaterialPick.recordPick_leaves _ _ _ fun _ _ => rfl)

theorem pick_safe (ctx : Operator) (id : ID) (request : PickRequest) :
    (pickWatch ar db).Safe (.pick ctx id request)
      (fun _ _ => (pickWatch ar db).Done (.pick ctx id request))
      (WorkOrderMaterialPick.execute ar ctx id request) [] [] v tr := by
  refine Watch.Safe.bind (Watch.Safe.selectForUpdate_bind rfl fun v₀ tr₀ hr₀ _ _ => ?_)
  have hholds : ∀ k, (pickWatch ar db).Holds k v₀ tr₀ := fun k =>
    hr₀.rest k List.not_mem_nil (not_strays k)
  refine Watch.Safe.orFail_bind fun before hbefore => Watch.Safe.ensure_bind fun hreleased => ?_
  have hkeys : [] ++ lockRow .workOrders id (v₀.workOrders.has id) = [workOrderKey id] := by
    rw [Table.has, hbefore]
    rfl
  rw [hkeys]
  refine Watch.Safe.ret fun v₁ tr₁ hr₁ => ?_
  have hstart : Picking ar db id v₀ tr₀ [] (total []) [workOrderKey id] v₀ tr₀ := by
    refine ⟨List.mem_cons_self, fun j hj => ?_, fun m hm => ?_, rfl, (add_zero _).symm, rfl,
      fun m hm => (by cases hm), fun m => .refl _⟩
    · cases List.mem_singleton.mp hj
      rfl
    · cases List.mem_singleton.mp hm
  refine Watch.Safe.bind (Watch.Safe.mono (items_safe (fun m => hholds _) request.items
    (hstart.rely (List.Subset.refl _) hr₁) ⟨[], rfl, rfl⟩) ?_)
  rintro _ vs own v tr ⟨h, hseen⟩
  refine Watch.Safe.select_bind fun v₂ tr₂ hr₂ hexp => ⟨.of_txn rfl, ?_⟩
  -- the last statement before the audit row: the lines have gone through
  have hadmits : WorkOrderMaterialPick.Admits ar id request.items v₀ := by
    obtain ⟨us, rfl, hlen⟩ := hseen
    exact hexp hlen
  have hstatus : Pickable (v₀.workOrderStatus? id) := by
    have hopen := hadmits.1 before.status (by rw [Db.workOrderStatus?, hbefore]; rfl)
    rw [Db.workOrderStatus?, hbefore]
    simp only [Bool.not_eq_true', decide_eq_false_iff_not, not_lt] at hreleased
    simp only [Pickable, Option.map_some, Option.some.injEq, WorkOrderStatus.toI16] at *
    omega
  rw [Watch.keeps_txn rfl]
  refine Watch.Safe.mono (Watch.Safe.neutral rfl (neutral ?_) (.refl own v₂ tr₂)) ?_
  · refine (Prog.preserves_orFail _ _).bind fun after => ?_
    exact (AuditService.record_preserves _ _ _ _ _ _).factor fun _ => rfl
  · rintro _ vs' own' v' tr' hkept
    exact (h.rely (List.Subset.refl _) hr₂).done (hholds _) hstatus hadmits hkept

/-- A request of which nothing is on record, and which owns nothing. -/
theorem done_free {r : WorkOrderRequest} (h : ∀ k, (pickWatch ar db).about k (.committed r) = false)
    {v : Db} {tr : List (Event WorkOrderRequest Answer)} : (pickWatch ar db).Done r [] v tr :=
  ⟨fun _ hk => (by cases hk), Guard.Hears.of_none h⟩

theorem release_safe (ctx : Operator) (id : ID) :
    (pickWatch ar db).Safe (.release ctx id)
      (fun _ _ => (pickWatch ar db).Done (.release ctx id))
      (WorkOrderRelease.execute ctx id) [] [] v tr := by
  refine Watch.Safe.select_bind fun v₁ tr₁ _ _ => ⟨.of_free rfl fun _ hk => (by cases hk), ?_⟩
  refine Watch.Safe.orFail_bind fun before hbefore => Watch.Safe.ensure_bind fun _ => ?_
  refine Watch.Safe.update_bind fun v₂ tr₂ hr₂ hfree _ => ?_
  -- the order is still there
  have hhas : v₂.workOrders.has id = true := by
    have hleads := hr₂.moved (workOrderKey id)
    have hstatus : v₁.workOrderStatus? id = some before.status := by
      rw [Db.workOrderStatus?, hbefore]
      rfl
    simp only [pickWatch, Guard.state, hstatus] at hleads
    obtain ⟨x, j, heq⟩ := hleads
    obtain ⟨row, hrow, -⟩ := Option.map_eq_some_iff.mp (PickPart.order.inj heq).1
    exact Table.has_iff.mpr ⟨row, hrow⟩
  rw [hhas] at hfree ⊢
  have hmem : workOrderKey id ∈ [] ++ lockRow .workOrders id true := List.mem_cons_self
  refine ⟨setStatus_writes hmem _, .of_free rfl fun k hk => ?_, ?_⟩
  · obtain rfl := List.mem_singleton.mp hk
    have hinv : OrderInv _ _ _ _ := hfree _ hmem List.not_mem_nil
    unfold Guard.Holds
    rw [proj_setStatus_self]
    refine ⟨fun e p he hp => .inl ?_, hinv.journal⟩
    obtain ⟨row, hrow⟩ := Table.has_iff.mp hhas
    rw [Db.workOrderStatus?, hrow]
    rfl
  · refine Watch.Safe.mono (Watch.Safe.neutral_free rfl (fun _ => rfl)
      (recordPick_neutral _ _ _)) ?_
    rintro _ _ _ _ _ rfl
    exact done_free fun k => by
      rcases k with _ | ⟨tn, j⟩
      · rfl
      · cases tn <;> rfl

theorem report_safe (ctx : Operator) (workOrderId operationId : ID)
    (request : WorkOrderOperationReport.ReportRequest) :
    (pickWatch ar db).Safe (.report ctx workOrderId operationId request)
      (fun _ _ => (pickWatch ar db).Done (.report ctx workOrderId operationId request))
      (WorkOrderOperationReport.execute ar ctx workOrderId operationId request) [] [] v tr := by
  refine Watch.Safe.mono (Watch.Safe.neutral_free rfl (fun _ => rfl) (neutral ?_)) ?_
  · refine (Prog.preserves_select _).bind fun found => (Prog.preserves_orFail _ _).bind
      fun _ => ?_
    refine (WorkOrderOperationReport.updateOperation_preserves ar _ _ _ fun _ _ => rfl).bind
      fun _ => ?_
    refine Prog.Preserves.bind ((Prog.preserves_select _).bind fun s => ?_) fun _ => ?_
    · refine Prog.preserves_writeIf fun x => Prod.ext (funext fun id => ?_) rfl
      unfold foot WorkOrderOperationReport.writeHeader Db.workOrderStatus?
      simp only [Table.get?_modify]
      split
      · rw [Option.map_map]
        rfl
      · rfl
    · exact WorkOrderMaterialPick.recordPick_leaves _ _ _ fun _ _ => rfl
  · rintro _ _ _ _ _ rfl
    exact done_free fun k => by
      rcases k with _ | ⟨tn, j⟩
      · rfl
      · cases tn <;> rfl

theorem about_complete {ctx : Operator} {id : ID} {k : Key}
    (h : (pickWatch ar db).about k (.committed (.complete ctx id)) = true) :
    k = workOrderKey id := by
  rcases k with _ | ⟨tn, j⟩
  · cases h
  · cases tn with
    | workOrders =>
      obtain rfl : id = j := of_decide_eq_true h
      rfl
    | _ => cases h

theorem complete_safe (ctx : Operator) (id : ID) :
    (pickWatch ar db).Safe (.complete ctx id)
      (fun _ _ => (pickWatch ar db).Done (.complete ctx id))
      (WorkOrderComplete.execute ctx id) [] [] v tr := by
  refine Watch.Safe.bind (Watch.Safe.selectForUpdate_bind rfl fun v₁ tr₁ hr₁ _ _ => ?_)
  have hinv : OrderInv _ _ _ _ := hr₁.rest (workOrderKey id) List.not_mem_nil (not_strays _)
  refine Watch.Safe.orFail_bind fun before hbefore => Watch.Safe.ensure_bind fun _ => ?_
  have hkeys : [] ++ lockRow .workOrders id (v₁.workOrders.has id) = [workOrderKey id] := by
    rw [Table.has, hbefore]
    rfl
  rw [hkeys]
  refine Watch.Safe.ret fun v₂ tr₂ hr₂ => Watch.Safe.update_bind fun v₃ tr₃ hr₃ _ _ => ?_
  refine ⟨setStatus_writes (List.mem_append_left _ List.mem_cons_self) _, .of_txn rfl, ?_⟩
  rw [Watch.keeps_txn rfl]
  have hstate := (hr₂.trans hr₃).state_eq (k := workOrderKey id) List.mem_cons_self
  refine Watch.Safe.mono (Watch.Safe.neutral rfl (recordPick_neutral _ _ _) (.refl _ _ _)) ?_
  rintro _ _ own v tr hkept
  have habout : (pickWatch ar db).about (workOrderKey id) (.committed (.complete ctx id)) = true :=
    decide_eq_true rfl
  refine ⟨fun k hk => ?_, fun k hk => ?_⟩
  · by_cases hid : k = workOrderKey id
    · subst hid
      have hlast := hkept.state_eq (workOrderKey id) (List.mem_append_left _ List.mem_cons_self)
      unfold Guard.Holds
      rw [Guard.log_snoc_of_about habout, (Prod.mk.inj hlast).1, (Prod.mk.inj hlast).2,
        proj_setStatus_self, (Prod.mk.inj hstate).2]
      refine ⟨fun e p he hp => ?_, ?_⟩
      · -- the last event is the completion
        rw [List.getLast?_concat] at he
        obtain rfl := Option.some.inj he
        cases hp
      · rw [(PickPart.order.inj (Prod.mk.inj hstate).1).2, hinv.journal, List.map_append,
          List.sum_append, List.map_singleton, List.sum_singleton]
        have hzero : eventTotal (.committed (.complete ctx id)) = 0 := rfl
        rw [hzero, add_zero]
    · have hnot : (pickWatch ar db).about k (.committed (.complete ctx id)) = false :=
        Bool.eq_false_iff.mpr fun h => hid (about_complete h)
      unfold Guard.Holds
      rw [Guard.log_snoc_of_not_about hnot]
      refine hkept.rest k hk fun hin => hid ?_
      rcases List.mem_append.mp hin with hin | hin
      · exact List.mem_singleton.mp hin
      · rw [lockRow, lockIf] at hin
        split at hin
        · exact List.mem_singleton.mp hin
        · cases hin
  · rw [Watch.lasting_txn rfl, about_complete hk]
    exact ⟨hkept.sub (List.mem_append_left _ List.mem_cons_self), .refl _⟩

/-! ## Creation -/

/-- A new row, of which the others know nothing, may be inserted. -/
theorem insertRow_safe {r : WorkOrderRequest} (hauto : r.auto = false) {tn : TableName} {id : ID}
    {taken : Db → Bool} {w : Db → Db} {own : List Key} {vs : List Db}
    (hall : ∀ k ∈ own, (pickWatch ar db).Holds k v tr)
    (hsame : ∀ k, k ≠ .row tn id → ∀ x, (pickWatch ar db).proj k (w x) = (pickWatch ar db).proj k x)
    (F : PickPart → PickPart)
    (hF : ∀ x,
      (pickWatch ar db).proj (.row tn id) (w x) = F ((pickWatch ar db).proj (.row tn id) x))
    (hnew : ∀ x tr, taken x = false → (pickWatch ar db).Holds (.row tn id) x tr →
      (pickWatch ar db).Holds (.row tn id) (w x) tr ∧
        ((pickWatch ar db).proj (.row tn id) x).Leads ((pickWatch ar db).proj (.row tn id) (w x))) :
    (pickWatch ar db).Safe r (fun _ _ own v tr => ∀ k ∈ own, (pickWatch ar db).Holds k v tr)
      (insertRow tn id taken w) vs own v tr := by
  rw [insertRow, ← Prog.bind_ret (Prog.insert _ _ _)]
  refine Watch.Safe.writeIf_bind fun v₁ tr₁ hr₁ hfree _ => ⟨fun _ _ => .of_txn hauto, fun hok => ?_⟩
  rw [unique_eq_none] at hok
  have hkey : (pickWatch ar db).Holds (.row tn id) v₁ tr₁ := by
    by_cases hin : .row tn id ∈ own
    · exact hr₁.holds hin (hall _ hin)
    · exact hfree _ List.mem_cons_self hin
  obtain ⟨hself, hleads⟩ := hnew v₁ tr₁ hok hkey
  refine ⟨⟨.of_part (List.mem_append_right _ List.mem_cons_self) F hF hsame, fun k _ => ?_⟩,
    .of_txn hauto, ?_⟩
  · show ((pickWatch ar db).proj k v₁).Leads ((pickWatch ar db).proj k (w v₁))
    by_cases hk : k = .row tn id
    · subst hk
      exact hleads
    · rw [hsame k hk]
      exact .refl _
  · rw [Watch.keeps_txn hauto]
    refine Watch.Safe.ret fun v₂ tr₂ hr₂ k hk => hr₂.holds hk ?_
    by_cases hid : k = .row tn id
    · subst hid
      exact hself
    · have hin : k ∈ own := (List.mem_append.mp hk).resolve_right fun h =>
        hid (List.mem_singleton.mp h)
      unfold Guard.Holds
      rw [hsame k hid]
      exact hr₁.holds hin (hall k hin)

/-- A neutral program keeps what holds of the rows of a transaction. -/
theorem neutral_safe {r : WorkOrderRequest} (hauto : r.auto = false) {α : Type} {p : Handler α}
    (hp : p.Preserves foot) {own : List Key} {vs : List Db}
    (hall : ∀ k ∈ own, (pickWatch ar db).Holds k v tr) :
    (pickWatch ar db).Safe r (fun _ _ own v tr => ∀ k ∈ own, (pickWatch ar db).Holds k v tr) p
      vs own v tr :=
  Watch.Safe.mono (Watch.Safe.neutral hauto (neutral hp) (.refl own v tr))
    fun _ _ _ _ _ hkept => hkept.holds hall

theorem insertHeader_safe {r : WorkOrderRequest} (hauto : r.auto = false) (row : WorkOrder)
    {own : List Key} {vs : List Db} (hall : ∀ k ∈ own, (pickWatch ar db).Holds k v tr) :
    (pickWatch ar db).Safe r (fun _ _ own v tr => ∀ k ∈ own, (pickWatch ar db).Holds k v tr)
      (WorkOrderCreate.insertHeader row) vs own v tr := by
  have hself : ∀ x : Db, ({ x with workOrders := x.workOrders.insert row } : Db).workOrderStatus?
      row.id = some ((x.workOrderStatus? row.id).getD row.status) := by
    intro x
    cases hx : x.workOrders.get? row.id with
    | none => simp [Db.workOrderStatus?, hx, Table.get?_insert_self hx]
    | some old => simp [Db.workOrderStatus?, hx, Table.get?_insert_of_some hx]
  refine insertRow_safe hauto hall (fun k hk x => ?_)
    (.mapOrder (fun status => some (status.getD row.status)) id)
    (fun x => congrArg (PickPart.order · _) (hself x)) fun x tr hfree hholds => ?_
  · rcases k with _ | ⟨tn, id⟩
    · rfl
    · cases tn with
      | workOrders =>
        refine congrArg (PickPart.order · _) ?_
        unfold Db.workOrderStatus?
        rw [Table.get?_insert_of_ne]
        rintro rfl
        exact hk rfl
      | _ => rfl
  · have hnone : x.workOrderStatus? row.id = none := by
      rw [Db.workOrderStatus?, Table.has_eq_false.mp hfree]
      rfl
    have hinv : OrderInv _ _ _ _ := hholds
    refine ⟨⟨fun e p he hp => ?_, hinv.journal⟩, ?_⟩
    · -- nothing was picked for an order that is not there
      have hpickable := hinv.gate e p he hp
      rw [hnone] at hpickable
      rcases hpickable with h | h <;> cases h
    · show (PickPart.order (x.workOrderStatus? row.id) _).Leads _
      rw [hnone]
      trivial

theorem insertMaterial_safe {r : WorkOrderRequest} (hauto : r.auto = false) (id : ID)
    (plannedQty : ℤ) (bi : BomItem) {own : List Key} {vs : List Db}
    (hall : ∀ k ∈ own, (pickWatch ar db).Holds k v tr) :
    (pickWatch ar db).Safe r (fun _ _ own v tr => ∀ k ∈ own, (pickWatch ar db).Holds k v tr)
      (WorkOrderCreate.insertMaterial ar id plannedQty bi) vs own v tr := by
  refine Watch.Safe.bind (neutral_safe hauto (Prog.preserves_ask .newId) hall |>.mono ?_)
  intro matId vs own v tr hall
  have hself : ∀ (x : Db) (row : WorkOrderMaterial),
      (x.workOrderMaterials.insert row).get? row.id =
        some ((x.workOrderMaterials.get? row.id).getD row) := by
    intro x row
    cases hx : x.workOrderMaterials.get? row.id with
    | none => rw [Table.get?_insert_self hx, Option.getD_none]
    | some old => rw [Table.get?_insert_of_some hx, Option.getD_some]
  refine insertRow_safe hauto hall (fun k hk x => ?_) (.mapMaterial fun row => some (row.getD {
      id := matId, workOrderId := id, itemId := bi.itemId
      requiredQty := ar.mul bi.quantity plannedQty, pickedQty := some 0 }))
    (fun x => congrArg PickPart.material (hself x _)) fun x tr hfree hholds => ?_
  · rcases k with _ | ⟨tn, j⟩
    · rfl
    · cases tn with
      | workOrderMaterials =>
        refine congrArg PickPart.material (Table.get?_insert_of_ne ?_)
        rintro rfl
        exact hk rfl
      | _ => rfl
  · have hnone := Table.has_eq_false.mp hfree
    have hinv : MaterialInv _ matId (x.workOrderMaterials.get? matId) _ := hholds
    have hget := Table.get?_insert_self (t := x.workOrderMaterials) (r := {
      id := matId, workOrderId := id, itemId := bi.itemId
      requiredQty := ar.mul bi.quantity plannedQty, pickedQty := some 0 }) hnone
    rw [hnone] at hinv
    refine ⟨?_, ?_⟩
    · show MaterialInv _ matId (Table.get? (x.workOrderMaterials.insert _) matId) _
      rw [hget]
      refine ⟨hinv.sum, fun e he => ?_, fun r hr hle => ?_⟩
      · obtain ⟨r, items, hr, -⟩ := hinv.refers e he
        cases hr
      · obtain rfl := Option.some.inj hr
        exact ⟨le_rfl, hle⟩
    · show (PickPart.material (x.workOrderMaterials.get? matId)).Leads _
      rw [hnone]
      trivial

theorem create_safe (ctx : Operator) (request : WorkOrderCreate.CreateWorkOrderRequest) :
    (pickWatch ar db).Safe (.create ctx request)
      (fun _ _ => (pickWatch ar db).Done (.create ctx request))
      ((WorkOrderRequest.create ctx request).run ar) [] [] v tr := by
  have hauto : (WorkOrderRequest.create ctx request).auto = false := rfl
  have hrely : ∀ (_ : List Db) own v tr v' tr',
      (∀ k ∈ own, (pickWatch ar db).Holds k v tr) → (pickWatch ar db).Rely own v tr v' tr' →
        ∀ k ∈ own, (pickWatch ar db).Holds k v' tr' :=
    fun _ _ _ _ _ _ hall hr k hk => hr.holds hk (hall k hk)
  refine Watch.Safe.bind ?_
  refine Watch.Safe.bind ((neutral_safe hauto (Prog.preserves_ask .newId)
    fun _ hk => (by cases hk)).mono ?_)
  intro id vs own v tr hall
  refine Watch.Safe.bind ((neutral_safe hauto (DocNumberer.nextNumber_preserves _ _ _) hall).mono
    fun code vs own v tr hall => ?_)
  refine Watch.Safe.bind ((insertHeader_safe hauto _ hall).mono fun _ vs own v tr hall => ?_)
  refine Watch.Safe.bind ((Watch.Safe.forEach hrely (fun op _ vs own v tr hall =>
    neutral_safe hauto (WorkOrderCreate.insertOperation_preserves _ _ op fun _ _ => rfl) hall)
    hall).mono fun _ vs own v tr hall => ?_)
  refine Watch.Safe.bind ((neutral_safe hauto (Prog.preserves_select _) hall).mono
    fun items vs own v tr hall => ?_)
  refine Watch.Safe.bind ((Watch.Safe.forEach hrely (fun bi _ vs own v tr hall =>
    insertMaterial_safe hauto _ _ bi hall) hall).mono fun _ vs own v tr hall => ?_)
  refine (neutral_safe hauto ?_ hall).mono fun _ vs own v tr hall =>
    Watch.Safe.ret fun v' tr' hr => ?_
  · refine (Prog.preserves_select _).bind fun row => (Prog.preserves_orFail _ _).bind fun _ => ?_
    refine Prog.Preserves.bind ?_ fun _ => Prog.preserves_ret _
    exact (AuditService.record_preserves _ _ _ _ _ _).factor fun _ => rfl
  · have hnot : ∀ k, (pickWatch ar db).about k (.committed (.create ctx request)) = false := by
      intro k
      rcases k with _ | ⟨tn, j⟩
      · rfl
      · cases tn <;> rfl
    refine ⟨fun k hk => ?_, Guard.Hears.of_none hnot⟩
    unfold Guard.Holds
    rw [Guard.log_snoc_of_not_about (hnot k)]
    exact hr.holds hk (hall k hk)

theorem run_safe (r : WorkOrderRequest) :
    (pickWatch ar db).Safe r (fun _ _ => (pickWatch ar db).Done r) (r.run ar) [] [] v tr := by
  cases r with
  | create ctx request => exact create_safe ctx request
  | release ctx id => exact release_safe ctx id
  | pick ctx id request => exact pick_safe ctx id request
  | report ctx workOrderId operationId request =>
    exact report_safe ctx workOrderId operationId request
  | complete ctx id => exact complete_safe ctx id

end Requests

/-! ## Sums -/

section Sums

variable {d : Db} {tr : List (Event WorkOrderRequest Answer)} {W : ID}

/-- The materials of a work order. -/
def materials (W : ID) (d : Db) : Finset ID :=
  ((d.workOrderMaterials.rows.filter fun r => r.workOrderId = W).map WorkOrderMaterial.id).toFinset

theorem mem_materials {m : ID} : m ∈ materials W d ↔
    ∃ r, d.workOrderMaterials.get? m = some r ∧ r.workOrderId = W := by
  refine Table.mem_keys_filter.trans ?_
  simp only [decide_eq_true_eq]

theorem pickedTotal_eq_sum (W : ID) (d : Db) :
    d.pickedTotal W = ∑ m ∈ materials W d, picked (d.workOrderMaterials.get? m) := by
  refine (Table.tally_eq_sum _ _ _).trans (Finset.sum_congr rfl fun m _ => ?_)
  cases d.workOrderMaterials.get? m <;> rfl

/-- Materials and events may be summed up in either order. -/
theorem sum_sum_map (s : Finset ID) (f : ID → Event WorkOrderRequest Answer → ℤ)
    (es : List (Event WorkOrderRequest Answer)) :
    ∑ m ∈ s, (es.map (f m)).sum = (es.map fun e => ∑ m ∈ s, f m e).sum := by
  induction es with
  | nil => simp
  | cons e es ih => simp only [List.map_cons, List.sum_cons, Finset.sum_add_distrib, ih]

theorem pick?_of_about {e : Event WorkOrderRequest Answer} {W' : ID} {items : List PickItem}
    (h : (pickWatch ar db).about (workOrderKey W) e = true) (hp : pick? e = some (W', items)) :
    W' = W := by
  cases e with
  | called q a => cases hp
  | committed r =>
    cases r with
    | pick ctx id request =>
      obtain ⟨rfl, -⟩ := Prod.mk.inj (Option.some.inj hp)
      exact of_decide_eq_true h
    | _ => cases hp

theorem about_of_names {e : Event WorkOrderRequest Answer} {m : ID} {items : List PickItem}
    (hp : pick? e = some (W, items)) (hm : names m items = true) :
    (pickWatch ar db).about (materialKey m) e = true := by
  cases e with
  | called q a => cases hp
  | committed r =>
    cases r with
    | pick ctx id request =>
      obtain ⟨-, rfl⟩ := Prod.mk.inj (Option.some.inj hp)
      exact hm
    | _ => cases hp

/-- The materials of an order have together what was journalled for it. -/
theorem pickedTotal_eq_journal (hdb : db.pickedTotal W = db.pickJournal W)
    (hholds : ∀ k, (pickWatch ar db).Holds k d tr)
    (hleads : ∀ m, ((pickWatch ar db).proj (materialKey m) db).Leads
      ((pickWatch ar db).proj (materialKey m) d)) : d.pickedTotal W = d.pickJournal W := by
  have hmaterial : ∀ m, MaterialInv _ m (d.workOrderMaterials.get? m) _ := fun m =>
    hholds (materialKey m)
  have horder : OrderInv _ _ _ _ := hholds (workOrderKey W)
  -- each material: what was there, and what the picks on record took
  have heach : ∀ m ∈ materials W d, picked (d.workOrderMaterials.get? m) =
      picked (db.workOrderMaterials.get? m) +
        (((pickWatch ar db).log (workOrderKey W) tr).map (eventAsks m)).sum := by
    intro m hm
    obtain ⟨r, hr, hW⟩ := mem_materials.mp hm
    rw [(hmaterial m).sum]
    refine congrArg (_ + ·) (sum_log_eq fun e he => ?_)
    obtain ⟨r', items, hr', hpick⟩ := (hmaterial m).refers e he
    obtain rfl := Option.some.inj (hr.symm.trans hr')
    exact ⟨items, hW ▸ hpick⟩
  -- new materials had nothing before
  have hold : ∑ m ∈ materials W d, picked (db.workOrderMaterials.get? m) = db.pickedTotal W := by
    rw [pickedTotal_eq_sum]
    refine (Finset.sum_subset (fun m hm => ?_) fun m hm hnot => ?_).symm
    · obtain ⟨r, hr, hW⟩ := mem_materials.mp hm
      have hm' := hleads m
      simp only [pickWatch, hr] at hm'
      obtain ⟨r', heq, horder, -⟩ := hm'
      exact mem_materials.mpr ⟨r', PickPart.material.inj heq, horder.trans hW⟩
    · obtain ⟨r, hr, hW⟩ := mem_materials.mp hm
      cases hget : db.workOrderMaterials.get? m with
      | none => rfl
      | some r₀ =>
        have hm' := hleads m
        simp only [pickWatch, hget, hr] at hm'
        obtain ⟨r', heq, horder, -⟩ := hm'
        obtain rfl := PickPart.material.inj heq |> Option.some.inj
        exact absurd (mem_materials.mpr ⟨r₀, hget, horder.symm.trans hW⟩) hnot
  -- each pick on the order names materials of the order only
  have hevents : ∀ e ∈ (pickWatch ar db).log (workOrderKey W) tr,
      ∑ m ∈ materials W d, eventAsks m e = eventTotal e := by
    intro e he
    obtain ⟨hmem, habout⟩ := List.mem_filter.mp he
    cases hpick : pick? e with
    | none => simp [eventAsks, eventTotal, hpick]
    | some p =>
      obtain ⟨W', items⟩ := p
      obtain rfl := pick?_of_about habout hpick
      simp only [eventAsks, eventTotal, hpick, Option.elim_some]
      refine WorkOrderMaterialPick.sum_asks fun item hitem => ?_
      have hnames : names item.materialId items = true :=
        List.any_eq_true.mpr ⟨item, hitem, decide_eq_true rfl⟩
      obtain ⟨r, items', hr, hp⟩ := (hmaterial item.materialId).refers e
        (List.mem_filter.mpr ⟨hmem, about_of_names hpick hnames⟩)
      rw [hpick] at hp
      exact mem_materials.mpr ⟨r, hr, (Prod.mk.inj (Option.some.inj hp)).1.symm⟩
  rw [pickedTotal_eq_sum, Finset.sum_congr rfl heach, Finset.sum_add_distrib, hold, sum_sum_map,
    List.map_congr_left hevents, hdb, horder.journal]

end Sums

end pickWatch

/-! ## Along a run -/

/-- Picks ask for what they may. -/
def PicksAdmitted (ar : Arith) (l : WorkOrderLive) (a : Action WorkOrderRequest Answer) : Prop :=
  l.Meets (fun r vs _ => r.PicksWithin ar vs) a

theorem picksAdmitted_allows {ar : Arith} {db : Db} {l : WorkOrderLive}
    {a : Action WorkOrderRequest Answer} (h : PicksAdmitted ar l a) :
    (pickWatch ar db).Allows l a :=
  ⟨h, Watch.apart_of_no_strays pickWatch.not_strays l a,
    Watch.unbroken_of_no_strays pickWatch.not_strays l a⟩

theorem pickWatch.sound_init {ar : Arith} {db : Db}
    (hwithin : ∀ r ∈ db.workOrderMaterials.rows, WithinRequired r) :
    (pickWatch ar db).Sound (Live.init db : WorkOrderLive) := by
  refine Watch.Sound.init fun k => ?_
  rcases k with _ | ⟨tn, id⟩
  · trivial
  · cases tn with
    | workOrders => exact ⟨fun _ _ h => (by cases h), (add_zero _).symm⟩
    | workOrderMaterials =>
      exact ⟨(add_zero _).symm, fun _ h => (by cases h), fun r hr =>
        hwithin r (Table.mem_of_get? hr)⟩
    | _ => trivial

/-- The record ends with the pick when it has been committed. -/
theorem trace_of_commits {ar : Arith} {l m : WorkOrderLive} {a : Action WorkOrderRequest Answer}
    {r : WorkOrderRequest} (hs : workOrderStep ar l a = some m) (hc : l.config.Commits a r) :
    ∃ tr, m.config.trace = tr ++ [.committed r] := by
  obtain ⟨i, ans, s, x, rfl, hsession, hprog, rfl⟩ := hc
  have hstmt : ∀ {t : Session Db Key Answer AppError Unit WorkOrderRequest},
      l.config.session? i = some t → t.prog = .ret x := by
    intro t ht
    obtain rfl := Option.some.inj (hsession.symm.trans ht)
    exact hprog
  cases Live.Step.of_act hs with
  | drop ht hdrop =>
    simp only [Config.drops, decide_eq_true_eq] at hdrop
    obtain ⟨rfl, hfails⟩ := hdrop
    simp [hsession, hprog] at hfails
  | commit ht hp =>
    obtain rfl := Option.some.inj (hsession.symm.trans ht)
    exact ⟨_, rfl⟩
  | call ht hp => cases (hstmt ht).symm.trans hp
  | stmt ht hp => cases (hstmt ht).symm.trans hp
  | exec ht hp => cases (hstmt ht).symm.trans hp

/-- Along every run in which picks ask for what they may, the quantities picked are within those
required, all of them are in the journal, and picks go through while their order is released or in
progress. -/
theorem picks_counted (ar : Arith) {db : Db} (hsum : ∀ W, db.pickedTotal W = db.pickJournal W)
    (hwithin : ∀ r ∈ db.workOrderMaterials.rows, WithinRequired r) {l : WorkOrderLive}
    (hl : Machine.Run (workOrderStep ar) (PicksAdmitted ar) (Live.init db) l) :
    (∀ r ∈ l.config.db.workOrderMaterials.rows, WithinRequired r) ∧
    (∀ W, l.config.db.pickedTotal W = l.config.db.pickJournal W) ∧
    ∀ a m, PicksAdmitted ar l a → workOrderStep ar l a = some m →
      ∀ ctx W request, l.config.Commits a (.pick ctx W request) →
        Pickable (m.config.db.workOrderStatus? W) := by
  have hrun : ∀ r v tr, (∀ k, ¬(pickWatch ar db).Strays k → (pickWatch ar db).Holds k v tr) →
      (pickWatch ar db).Safe r (fun _ _ => (pickWatch ar db).Done r) (r.run ar) [] [] v tr :=
    fun r _ _ _ => pickWatch.run_safe r
  have hok : ∀ l a, PicksAdmitted ar l a → (pickWatch ar db).Allows l a :=
    fun _ _ => picksAdmitted_allows
  have hinit : (pickWatch ar db).Sound (Live.init db : WorkOrderLive) :=
    pickWatch.sound_init hwithin
  have hholds : ∀ {l : WorkOrderLive},
      Machine.Run (workOrderStep ar) (PicksAdmitted ar) (Live.init db) l →
      ∀ k, (pickWatch ar db).Holds k l.config.db l.config.trace := fun hl k =>
    (hinit.run hrun hok hl).holds k fun _ _ _ _ => List.not_mem_nil
  refine ⟨fun r hr => ?_, fun W => ?_, fun a m ha hs ctx W request hc => ?_⟩
  · have hinv : MaterialInv _ r.id (l.config.db.workOrderMaterials.get? r.id) _ :=
      hholds hl (materialKey r.id)
    exact hinv.within r (Table.get?_of_mem hr)
  · exact pickWatch.pickedTotal_eq_journal (hsum W) (hholds hl) fun m =>
      hinit.moves_run hrun hok hl (materialKey m)
  · obtain ⟨tr, htr⟩ := trace_of_commits hs hc
    have habout :
        (pickWatch ar db).about (workOrderKey W) (.committed (.pick ctx W request)) = true :=
      decide_eq_true rfl
    have hinv := hholds (hl.tail ha hs) (workOrderKey W)
    unfold Guard.Holds at hinv
    rw [htr, Guard.log_snoc_of_about habout] at hinv
    have horder : OrderInv _ _ _ _ := hinv
    exact horder.gate _ _ (List.getLast?_concat ..) rfl

/-! ## Picks that go through -/

section Examples

/-- A released work order that needs 10 pieces of an item, of which 100 are in stock. -/
private def stocked : Db :=
  { Db.empty with
    workOrders := Table.empty.insert {
      id := 1, code := "MO", bomId := 2, itemId := 3, plannedQty := 10, completedQty := 0
      scrapQty := 0, status := 1, dueDate := none, remark := none }
    workOrderMaterials := Table.empty.insert {
      id := 4, workOrderId := 1, itemId := 5, requiredQty := 10, pickedQty := some 0 }
    inventories := Table.empty.insert {
      id := 7, itemId := 5, warehouseId := 6, quantity := 100, lockedQty := 0, version := 1 } }

private def picker : Operator := { operatorId := 9, ip := none, userAgent := none }

/-- A pick of the material, with a line for each quantity. -/
private def picking (quantities : List ℤ) : WorkOrderRequest :=
  .pick picker 1 {
    items := quantities.map fun q =>
      { materialId := 4, itemId := 5, warehouseId := 6, quantity := q } }

private def pickStep (i : ℕ) : Action WorkOrderRequest Answer :=
  .step i (numbered (100 * (i + 1)) 0)

/-- The request that is going to commit with the next step of session `i`. -/
private def returning? (l : WorkOrderLive) (i : ℕ) : Option WorkOrderRequest :=
  (l.config.session? i).bind fun s =>
    match s.prog with
    | .ret _ => some s.request
    | _ => none

private theorem commits_of_returning {l : WorkOrderLive} {i : ℕ} {r : WorkOrderRequest}
    (h : returning? l i = some r) : l.config.Commits (pickStep i) r := by
  obtain ⟨s, hs, hr⟩ := Option.bind_eq_some_iff.mp h
  split at hr
  · next x hp => exact ⟨i, _, s, x, rfl, hs, hp, Option.some.inj hr⟩
  · cases hr

private theorem stocked_sum (W : ID) : stocked.pickedTotal W = stocked.pickJournal W := by
  by_cases hW : W = 1
  · subst hW
    decide +kernel
  · have hnone : (stocked.workOrderMaterials.rows.filter fun r => r.workOrderId = W) = [] := by
      refine List.filter_eq_nil_iff.mpr fun r hr => ?_
      rw [List.mem_singleton.mp hr]
      simpa using Ne.symm hW
    rw [Db.pickedTotal, Table.tally, hnone]
    rfl

private theorem twice_play :
    (((workOrderStep .i64).play
        (fun l a => l.meets (fun r vs _ => decide (r.PicksWithin .i64 vs)) a)
        (Live.init stocked) (.start (picking [3, 4]) :: List.replicate 18 (pickStep 0))).bind
      fun l => if l.meets (fun r vs _ => decide (r.PicksWithin .i64 vs)) (pickStep 0) then
        (workOrderStep .i64 l (pickStep 0)).map fun m =>
          (returning? l 0, m.config.db.pickedTotal 1)
      else none) = some (some (picking [3, 4]), 7) := by
  decide +kernel

/-- Two lines of one material, 3 and 4 pieces. -/
theorem picks_counted_twoLines :
    ∃ l m : WorkOrderLive, l.config.Commits (pickStep 0) (picking [3, 4]) ∧
      Pickable (m.config.db.workOrderStatus? 1) ∧
      m.config.db.pickedTotal 1 = 7 ∧ m.config.db.pickJournal 1 = 7 := by
  obtain ⟨l, hplay, h⟩ := Option.bind_eq_some_iff.mp twice_play
  split at h
  · next htest =>
    obtain ⟨m, hm, h⟩ := Option.map_eq_some_iff.mp h
    obtain ⟨hreturns, hseven⟩ := Prod.mk.inj h
    have hok : ∀ l a, l.meets (fun r vs _ => decide (r.PicksWithin .i64 vs)) a = true →
        PicksAdmitted .i64 l a := fun _ _ h =>
      Live.meets_of_test (fun _ _ _ hr => of_decide_eq_true hr) h
    have hl := Machine.Run.of_play hok .refl hplay
    have hcommits := commits_of_returning hreturns
    have hwithin : ∀ r ∈ stocked.workOrderMaterials.rows, WithinRequired r := by decide +kernel
    have hafter := (picks_counted .i64 stocked_sum hwithin (hl.tail (hok _ _ htest) hm)).2.1 1
    refine ⟨l, m, hcommits, ?_, hseven, hafter.symm.trans hseven⟩
    exact (picks_counted .i64 stocked_sum hwithin hl).2.2 _ m (hok _ _ htest) hm _ _ _ hcommits
  · cases h

private theorem completed_play :
    (((workOrderStep .i64).play (fun _ _ => true) (Live.init stocked)
        ([.start (.complete picker 1)] ++ List.replicate 6 (pickStep 0) ++
          [.start (picking [3])] ++ List.replicate 11 (pickStep 1))).bind fun l =>
      (workOrderStep .i64 l (pickStep 1)).map fun m =>
        (returning? l 1, l.config.db.workOrderStatus? 1, m.config.db.workOrderStatus? 1)) =
      some (some (picking [3]), some 3, some 3) := by
  decide +kernel

private theorem negative_play :
    ((workOrderStep .i64).play (fun _ _ => true) (Live.init stocked)
        (.start (picking [-3]) :: List.replicate 12 (pickStep 0))).map
      (fun l => l.config.db.workOrderMaterials.get? 4) =
      some (some {
        id := 4, workOrderId := 1, itemId := 5, requiredQty := 10, pickedQty := some (-3) }) := by
  decide +kernel

/-- A pick goes through after the order has been completed, and one for -3 pieces makes the picked
quantity negative. -/
theorem picked_after_completion :
    (∀ W, stocked.pickedTotal W = stocked.pickJournal W) ∧
    (∀ r ∈ stocked.workOrderMaterials.rows, WithinRequired r) ∧
    (∃ l m : WorkOrderLive,
      Machine.Run (workOrderStep .i64) (fun _ _ => True) (Live.init stocked) l ∧
      l.config.Commits (pickStep 1) (picking [3]) ∧
      workOrderStep .i64 l (pickStep 1) = some m ∧
      l.config.db.workOrderStatus? 1 = some WorkOrderStatus.completed.toI16 ∧
      m.config.db.workOrderStatus? 1 = some WorkOrderStatus.completed.toI16) ∧
    ∃ l : WorkOrderLive,
      Machine.Run (workOrderStep .i64) (fun _ _ => True) (Live.init stocked) l ∧
      ∃ r ∈ l.config.db.workOrderMaterials.rows, ¬WithinRequired r := by
  refine ⟨stocked_sum, by decide +kernel, ?_, ?_⟩
  · obtain ⟨l, hl, h⟩ := Option.bind_eq_some_iff.mp completed_play
    obtain ⟨m, hm, h⟩ := Option.map_eq_some_iff.mp h
    simp only [Prod.mk.injEq] at h
    exact ⟨l, m, .of_play (fun _ _ _ => trivial) .refl hl, commits_of_returning h.1, hm, h.2⟩
  · obtain ⟨l, hl, h⟩ := Option.map_eq_some_iff.mp negative_play
    exact ⟨l, .of_play (fun _ _ _ => trivial) .refl hl, _, Table.mem_of_get? h, by decide⟩

end Examples

end Slab
