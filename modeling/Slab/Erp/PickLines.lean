import Slab.Erp.MaterialPicks

/-!
# The lines of a pick

A pick has locked its work order. Each line locks a material of the order, writes its counter and
takes the quantity from the stock. What the counters will be when the pick commits follows from
what they were when the order was locked, because nobody else changes them in between.

## Main definitions

- `Traced` — what the pick knows of a material
- `Picking` — what it knows after some of its lines

## Main results

- `Picking.traced_of_fresh` — a material that is not locked yet is as it was
- `pickItem_safe`, `items_safe` — one line, and all of them
- `Picking.done` — what the pick owes when it commits
-/

namespace Slab

open Txn
open WorkOrderMaterialPick (names asks total picked required pick? eventAsks eventTotal PickItem
  PickRequest pickItem)

namespace pickWatch

variable {ar : Arith} {db : Db}

/-! ## Between the lines of a pick -/

/-- What a pick of order `W`, which found `v₀` when it locked the order, knows of a material that it
has locked: how it comes from what was there, and from the picks on record. -/
structure Traced (ar : Arith) (db : Db) (W : ID) (v₀ : Db) (lines : List PickItem) (m : ID)
    (v : Db) (tr : List (Event WorkOrderRequest Answer)) : Prop where
  row : ∃ r, v.workOrderMaterials.get? m = some r ∧ r.workOrderId = W ∧
    (0 ≤ r.requiredQty → 0 ≤ required (v₀.workOrderMaterials.get? m))
  sum : ar.norm (picked (v.workOrderMaterials.get? m)) =
    ar.norm (picked (v₀.workOrderMaterials.get? m) + asks m lines)
  before : picked (v₀.workOrderMaterials.get? m) = picked (db.workOrderMaterials.get? m) +
    (((pickWatch ar db).log (materialKey m) tr).map (eventAsks m)).sum
  refers : ∀ e ∈ (pickWatch ar db).log (materialKey m) tr, ∃ items, pick? e = some (W, items)

/-- What was written is a 64-bit number that is not above what is required. -/
def Written (ar : Arith) (m : ID) (v : Db) : Prop :=
  ar.Fits (picked (v.workOrderMaterials.get? m)) ∧
    ∀ r, v.workOrderMaterials.get? m = some r → picked (some r) ≤ r.requiredQty

/-- What a pick knows when it has gone through `lines`, and `booked` is journalled of them. -/
structure Picking (ar : Arith) (db : Db) (W : ID) (v₀ : Db)
    (tr₀ : List (Event WorkOrderRequest Answer)) (lines : List PickItem) (booked : ℤ)
    (own : List Key) (v : Db) (tr : List (Event WorkOrderRequest Answer)) : Prop where
  mem : workOrderKey W ∈ own
  orders : ∀ id, workOrderKey id ∈ own → id = W
  fresh : ∀ m, materialKey m ∈ own → names m lines = true
  status : v.workOrderStatus? W = v₀.workOrderStatus? W
  journal : v.pickJournal W = v₀.pickJournal W + booked
  log : (pickWatch ar db).log (workOrderKey W) tr = (pickWatch ar db).log (workOrderKey W) tr₀
  touched : ∀ m, names m lines = true →
    materialKey m ∈ own ∧ Traced ar db W v₀ lines m v tr ∧ Written ar m v
  untouched : ∀ m, ((pickWatch ar db).proj (materialKey m) v₀).Leads
    ((pickWatch ar db).proj (materialKey m) v)

section Picking

variable {W : ID} {v₀ : Db} {tr₀ : List (Event WorkOrderRequest Answer)} {lines : List PickItem}
  {booked : ℤ} {own own' : List Key} {v v' : Db} {tr tr' : List (Event WorkOrderRequest Answer)}

theorem get?_of_state {m : ID} (h : (pickWatch ar db).state (materialKey m) v' tr' =
    (pickWatch ar db).state (materialKey m) v tr) :
    v'.workOrderMaterials.get? m = v.workOrderMaterials.get? m ∧
      (pickWatch ar db).log (materialKey m) tr' = (pickWatch ar db).log (materialKey m) tr := by
  obtain ⟨hpart, hlog⟩ := Prod.mk.inj h
  exact ⟨PickPart.material.inj hpart, hlog⟩

theorem Traced.congr {m : ID} (h : Traced ar db W v₀ lines m v tr)
    (hstate : (pickWatch ar db).state (materialKey m) v' tr' =
      (pickWatch ar db).state (materialKey m) v tr) : Traced ar db W v₀ lines m v' tr' := by
  obtain ⟨hget, hlog⟩ := get?_of_state hstate
  obtain ⟨hrow, hsum, hbefore, hrefers⟩ := h
  refine ⟨?_, ?_, ?_, ?_⟩
  · rw [hget]
    exact hrow
  · rw [hget]
    exact hsum
  · rw [hlog]
    exact hbefore
  · rw [hlog]
    exact hrefers

/-- The pick goes on to know it while what it owns stays as it is. -/
theorem Picking.keep (h : Picking ar db W v₀ tr₀ lines booked own v tr) (hsub : own ⊆ own')
    (horders : ∀ id, workOrderKey id ∈ own' → workOrderKey id ∈ own)
    (hfresh : ∀ m, materialKey m ∈ own' → materialKey m ∈ own)
    (hstate : ∀ k ∈ own, (pickWatch ar db).state k v' tr' = (pickWatch ar db).state k v tr)
    (hleads : ∀ m, ((pickWatch ar db).proj (materialKey m) v).Leads
      ((pickWatch ar db).proj (materialKey m) v')) :
    Picking ar db W v₀ tr₀ lines booked own' v' tr' := by
  obtain ⟨hpart, hlog⟩ := Prod.mk.inj (hstate _ h.mem)
  obtain ⟨hstatus, hjournal⟩ := PickPart.order.inj hpart
  refine ⟨hsub h.mem, fun id hid => h.orders id (horders id hid),
    fun m hm => h.fresh m (hfresh m hm), hstatus.trans h.status, hjournal.trans h.journal,
    hlog.trans h.log, fun m hm => ?_, fun m => (h.untouched m).trans (hleads m)⟩
  obtain ⟨hown, htraced, hfits, hle⟩ := h.touched m hm
  have hget := (get?_of_state (hstate _ hown)).1
  refine ⟨hsub hown, htraced.congr (hstate _ hown), ?_, ?_⟩
  · rw [hget]
    exact hfits
  · rw [hget]
    exact hle

theorem Picking.rely (h : Picking ar db W v₀ tr₀ lines booked own v tr) (hsub : own ⊆ own')
    (hr : (pickWatch ar db).Rely own' v tr v' tr') :
    Picking ar db W v₀ tr₀ lines booked own v' tr' :=
  h.keep (List.Subset.refl own) (fun _ => id) (fun _ => id) (fun _ hk => hr.state_eq (hsub hk))
    fun m => hr.moved (materialKey m)

/-- A statement that locks rows of the stock only, and leaves what is guarded alone. -/
theorem Picking.grow (h : Picking ar db W v₀ tr₀ lines booked own v tr) (v' : Db)
    (ks : List Key) (hks : ∀ k ∈ ks, ∃ i w, k = .inventory i w) (hfoot : foot v' = foot v) :
    Picking ar db W v₀ tr₀ lines booked (own ++ ks) v' tr := by
  have hrow : ∀ tn id, .row tn id ∈ own ++ ks → .row tn id ∈ own := by
    intro tn id hk
    refine (List.mem_append.mp hk).resolve_right fun hin => ?_
    obtain ⟨i, w, heq⟩ := hks _ hin
    cases heq
  refine h.keep (List.subset_append_left own ks) (hrow _) (hrow _)
    (fun k _ => congrArg (·, _) (proj_congr hfoot k)) fun m => ?_
  rw [proj_congr hfoot]
  exact .refl _

theorem Picking.heard (h : Picking ar db W v₀ tr₀ lines booked own v tr) (q : Ask)
    (a : Answer q) : Picking ar db W v₀ tr₀ lines booked own v (tr ++ [.called q a]) := by
  refine h.keep (List.Subset.refl own) (fun _ => id) (fun _ => id) (fun k _ => ?_)
    fun m => .refl _
  refine congrArg (_, ·) ?_
  have hnil : (pickWatch ar db).log k [.called q a] = [] :=
    Guard.log_eq_nil (by simpa using about_called k q a)
  rw [Guard.log_append, hnil, List.append_nil]

/-- A material of the order that the pick has not locked is as it was when it locked the order:
only picks on the order change it, and there were none. -/
theorem Picking.traced_of_fresh (h : Picking ar db W v₀ tr₀ lines booked own v tr)
    (hbefore : ∀ m, (pickWatch ar db).Holds (materialKey m) v₀ tr₀) {m : ID}
    (hm : names m lines = false) (hnow : (pickWatch ar db).Holds (materialKey m) v tr)
    {r : WorkOrderMaterial} (hr : v.workOrderMaterials.get? m = some r)
    (hW : r.workOrderId = W) : Traced ar db W v₀ lines m v tr := by
  have hb : MaterialInv _ m (v₀.workOrderMaterials.get? m) _ := hbefore m
  have hn : MaterialInv _ m (v.workOrderMaterials.get? m) _ := hnow
  have hleads := h.untouched m
  have hrefers : ∀ e ∈ (pickWatch ar db).log (materialKey m) tr,
      ∃ items, pick? e = some (W, items) := by
    intro e he
    obtain ⟨r', items, hr', hpick⟩ := hn.refers e he
    obtain rfl := Option.some.inj (hr.symm.trans hr')
    exact ⟨items, hW ▸ hpick⟩
  -- the row that was there before, if there was one, is of the same order
  have hold : ∀ r₀, v₀.workOrderMaterials.get? m = some r₀ →
      r₀.workOrderId = W ∧ r₀.requiredQty = r.requiredQty := by
    intro r₀ hr₀
    simp only [pickWatch, hr₀, hr] at hleads
    obtain ⟨r', heq, horder, hrequired⟩ := hleads
    obtain rfl := Option.some.inj (PickPart.material.inj heq)
    exact ⟨horder.symm.trans hW, hrequired.symm⟩
  have hrefers₀ : ∀ e ∈ (pickWatch ar db).log (materialKey m) tr₀,
      ∃ items, pick? e = some (W, items) := by
    intro e he
    obtain ⟨r₀, items, hr₀, hpick⟩ := hb.refers e he
    exact ⟨items, (hold r₀ hr₀).1 ▸ hpick⟩
  have hlogs : (((pickWatch ar db).log (materialKey m) tr₀).map (eventAsks m)).sum =
      (((pickWatch ar db).log (materialKey m) tr).map (eventAsks m)).sum := by
    rw [sum_log_eq hrefers₀, sum_log_eq hrefers, h.log]
  have hsame := hb.sum
  rw [hlogs] at hsame
  refine ⟨⟨r, hr, hW, fun hle => ?_⟩, ?_, hsame, hrefers⟩
  · cases hr₀ : v₀.workOrderMaterials.get? m with
    | none => exact le_rfl
    | some r₀ =>
      rw [required, Option.map_some, Option.getD_some, (hold r₀ hr₀).2]
      exact hle
  · rw [WorkOrderMaterialPick.asks_of_not_names hm, add_zero, hsame]
    exact congrArg ar.norm hn.sum

/-! ## One line -/

open WorkOrderMaterialPick (writeMaterial)

theorem get?_writeMaterial (m n : ID) (x : Db) :
    (writeMaterial m n x).workOrderMaterials.get? m =
      (x.workOrderMaterials.get? m).map (WorkOrderMaterial.pick n) := by
  simp only [writeMaterial, Table.get?_modify_self]

theorem get?_writeMaterial_of_ne {m j : ID} (h : j ≠ m) (n : ℤ) (x : Db) :
    (writeMaterial m n x).workOrderMaterials.get? j = x.workOrderMaterials.get? j := by
  simp only [writeMaterial, Table.get?_modify_of_ne h]

/-- The counter of a material changes nothing else. -/
theorem proj_writeMaterial_of_ne {m : ID} {k : Key} (h : k ≠ materialKey m) (n : ℤ) (x : Db) :
    (pickWatch ar db).proj k (writeMaterial m n x) = (pickWatch ar db).proj k x := by
  rcases k with _ | ⟨tn, id⟩
  · rfl
  · cases tn with
    | workOrderMaterials =>
      refine congrArg PickPart.material (get?_writeMaterial_of_ne ?_ n x)
      rintro rfl
      exact h rfl
    | _ => rfl

theorem leads_writeMaterial (m n : ℤ) (k : Key) (x : Db) :
    ((pickWatch ar db).proj k x).Leads ((pickWatch ar db).proj k (writeMaterial m n x)) := by
  by_cases hk : k = materialKey m
  · subst hk
    simp only [pickWatch, get?_writeMaterial]
    cases x.workOrderMaterials.get? m with
    | none => trivial
    | some r => exact ⟨_, rfl, rfl, rfl⟩
  · rw [proj_writeMaterial_of_ne hk]
    exact .refl _

theorem writeMaterial_writes {m : ID} (hown : materialKey m ∈ own) (n : ℤ) :
    (pickWatch ar db).Writes own v tr (writeMaterial m n) := by
  refine ⟨.of_part hown (.mapMaterial (Option.map (WorkOrderMaterial.pick n))) (fun x => ?_)
    (fun k hk x => proj_writeMaterial_of_ne hk n x), fun k _ => ?_⟩
  · exact congrArg PickPart.material (get?_writeMaterial m n x)
  · show ((pickWatch ar db).proj k v).Leads _
    exact leads_writeMaterial m n k v

/-- What the pick knows once it has written the counter of one more line. -/
theorem Picking.write (h : Picking ar db W v₀ tr₀ lines booked own v tr) {item : PickItem}
    (own' : List Key) (htraced : Traced ar db W v₀ lines item.materialId v tr)
    {r : WorkOrderMaterial}
    (hr : v.workOrderMaterials.get? item.materialId = some r)
    (hle : ar.add (r.pickedQty.getD 0) item.quantity ≤ r.requiredQty) (hsub : own ⊆ own')
    (hmem : materialKey item.materialId ∈ own')
    (horders : ∀ id, workOrderKey id ∈ own' → workOrderKey id ∈ own)
    (hfresh : ∀ m, materialKey m ∈ own' → materialKey m ∈ own ∨ item.materialId = m) :
    Picking ar db W v₀ tr₀ (lines ++ [item]) booked own'
      (writeMaterial item.materialId (ar.add (r.pickedQty.getD 0) item.quantity) v) tr := by
  refine ⟨hsub h.mem, fun id hid => h.orders id (horders id hid), fun m hm => ?_, h.status,
    h.journal, h.log, fun m hm => ?_, fun m => (h.untouched m).trans (leads_writeMaterial _ _ _ _)⟩
  · rw [WorkOrderMaterialPick.names_append]
    rcases hfresh m hm with hown | rfl
    · rw [h.fresh m hown, Bool.true_or]
    · simp
  · by_cases hitem : item.materialId = m
    · subst hitem
      have hget := get?_writeMaterial item.materialId
        (ar.add (r.pickedQty.getD 0) item.quantity) v
      rw [hr, Option.map_some] at hget
      obtain ⟨⟨r', hr', hW, hrequired⟩, hsum, hbefore, hrefers⟩ := htraced
      obtain rfl := Option.some.inj (hr.symm.trans hr')
      rw [hr] at hsum
      refine ⟨hmem, ⟨⟨_, hget, hW, hrequired⟩, ?_, hbefore, hrefers⟩, ?_, fun r' hr' => ?_⟩
      · -- the new counter is the old one and the quantity of the line
        rw [hget, WorkOrderMaterialPick.asks_append, if_pos rfl, ← add_assoc, ← ar.norm_add,
          ← hsum, ar.norm_add]
        exact Arith.norm_norm _
      · rw [hget]
        exact Arith.fits_add
      · obtain rfl := Option.some.inj (hget.symm.trans hr')
        exact hle
    · rw [WorkOrderMaterialPick.names_append, decide_eq_false hitem, Bool.or_false] at hm
      obtain ⟨hown, ⟨hrow, hsum, hbefore, hrefers⟩, hfits, hbound⟩ := h.touched m hm
      have hget := get?_writeMaterial_of_ne (Ne.symm hitem)
        (ar.add (r.pickedQty.getD 0) item.quantity) v
      refine ⟨hsub hown, ⟨?_, ?_, hbefore, hrefers⟩, ?_, ?_⟩
      · rw [hget]
        exact hrow
      · rw [hget, WorkOrderMaterialPick.asks_append, if_neg hitem, add_zero]
        exact hsum
      · rw [hget]
        exact hfits
      · rw [hget]
        exact hbound

/-- A journal row counts for its own work order. -/
theorem pickJournal_logTransaction (row : InventoryTransaction) (x : Db) (id : ID) :
    (x.logTransaction row).pickJournal id = x.pickJournal id +
      if row.referenceType = "work_order_pick" ∧ row.referenceId = id then row.quantity else 0 := by
  unfold Db.pickJournal Db.logTransaction
  rw [List.filter_append, List.map_append, List.sum_append]
  by_cases hrow : row.referenceType = "work_order_pick" ∧ row.referenceId = id
  · simp [hrow]
  · rw [if_neg hrow, List.filter_cons, if_neg (by simpa using hrow)]
    rfl

open WorkOrderMaterialPick (issueCommand)

theorem proj_logPick_of_ne {k : Key} (h : k ≠ workOrderKey W) (item : PickItem) (txId : ID)
    (before after : ℤ) (x : Db) :
    (pickWatch ar db).proj k (x.logTransaction ((issueCommand W item).row txId before after)) =
      (pickWatch ar db).proj k x := by
  rcases k with _ | ⟨tn, id⟩
  · rfl
  · cases tn with
    | workOrders =>
      refine congrArg (PickPart.order _) ((pickJournal_logTransaction _ x id).trans ?_)
      rw [if_neg, add_zero]
      rintro ⟨-, hid⟩
      obtain rfl : W = id := hid
      exact h rfl
    | _ => rfl

theorem proj_logPick_self (item : PickItem) (txId : ID) (before after : ℤ) (x : Db) :
    (pickWatch ar db).proj (workOrderKey W)
        (x.logTransaction ((issueCommand W item).row txId before after)) =
      .order (x.workOrderStatus? W) (x.pickJournal W + item.quantity) := by
  refine congrArg (PickPart.order _) ((pickJournal_logTransaction _ x W).trans ?_)
  rw [if_pos ⟨rfl, rfl⟩]
  rfl

theorem leads_logPick (item : PickItem) (txId : ID) (before after : ℤ) (k : Key) (x : Db) :
    ((pickWatch ar db).proj k x).Leads ((pickWatch ar db).proj k
      (x.logTransaction ((issueCommand W item).row txId before after))) := by
  by_cases hk : k = workOrderKey W
  · subst hk
    rw [proj_logPick_self]
    show (PickPart.order (x.workOrderStatus? W) _).Leads _
    cases x.workOrderStatus? W with
    | none => trivial
    | some status => exact ⟨_, _, rfl⟩
  · rw [proj_logPick_of_ne hk]
    exact .refl _

theorem logPick_writes (hown : workOrderKey W ∈ own) (item : PickItem) (txId : ID)
    (before after : ℤ) :
    (pickWatch ar db).Writes own v tr
      (Db.logTransaction ((issueCommand W item).row txId before after)) := by
  refine ⟨.of_part hown (.mapOrder id (· + item.quantity))
    (fun x => proj_logPick_self item txId before after x)
    (fun k hk x => proj_logPick_of_ne hk item txId before after x), fun k _ => ?_⟩
  show ((pickWatch ar db).proj k v).Leads _
  exact leads_logPick item txId before after k v

/-- What the pick knows once it has journalled a line. -/
theorem Picking.book (h : Picking ar db W v₀ tr₀ lines booked own v tr) (item : PickItem)
    (txId : ID) (before after : ℤ) :
    Picking ar db W v₀ tr₀ lines (booked + item.quantity) own
      (v.logTransaction ((issueCommand W item).row txId before after)) tr := by
  have hself : (pickWatch ar db).proj (workOrderKey W) _ = _ :=
    proj_logPick_self item txId before after v
  obtain ⟨-, hjournal⟩ := PickPart.order.inj hself
  refine ⟨h.mem, h.orders, h.fresh, h.status, hjournal.trans ?_, h.log, fun m hm => ?_,
    fun m => (h.untouched m).trans (leads_logPick item txId before after _ v)⟩
  · rw [h.journal, add_assoc]
  · obtain ⟨hown, ⟨hrow, hsum, hbefore, hrefers⟩, hwritten⟩ := h.touched m hm
    exact ⟨hown, ⟨hrow, hsum, hbefore, hrefers⟩, hwritten⟩

/-- The views of a transaction that has executed `n` statements since it saw `v₀`. -/
def Seen (v₀ : Db) (n : ℕ) (vs : List Db) : Prop := ∃ us, vs = v₀ :: us ∧ us.length = n

theorem Seen.snoc {n : ℕ} {vs : List Db} (h : Seen v₀ n vs) (v : Db) :
    Seen v₀ (n + 1) (vs ++ [v]) := by
  obtain ⟨us, rfl, hlen⟩ := h
  exact ⟨us ++ [v], rfl, by rw [List.length_append, hlen, List.length_singleton]⟩

variable {ctx : Operator} {request : PickRequest} {vs : List Db} {n : ℕ}

theorem issue_safe (h : Picking ar db W v₀ tr₀ lines booked own v tr) (hseen : Seen v₀ n vs)
    (item : PickItem) :
    (pickWatch ar db).Safe (.pick ctx W request)
      (fun _ vs own v tr => Picking ar db W v₀ tr₀ lines (booked + item.quantity) own v tr ∧
        Seen v₀ (n + 3) vs)
      (InventoryLedger.issue ar (issueCommand W item)) vs own v tr := by
  have hlock : ∀ c, ∀ k ∈ lockIf c (.inventory item.itemId item.warehouseId),
      ∃ i w, k = .inventory i w := by
    intro c k hk
    rw [lockIf] at hk
    split at hk
    · exact ⟨_, _, List.mem_singleton.mp hk⟩
    · cases hk
  refine Watch.Safe.bind (Watch.Safe.selectForUpdate_bind rfl fun v₁ tr₁ hr₁ _ _ => ?_)
  have h₁ := (h.rely (List.Subset.refl _) hr₁).grow v₁ _
    (hlock (v₁.inventories.has (item.itemId, item.warehouseId))) rfl
  refine Watch.Safe.ret fun v₂ tr₂ hr₂ => Watch.Safe.ensure_bind fun _ => ?_
  have h₂ := h₁.rely (List.Subset.refl _) hr₂
  refine Watch.Safe.ask_bind fun v₃ tr₃ hr₃ => ⟨trivial, fun invId =>
    ⟨Guard.Hears.of_none fun k => about_called k _ _, ?_⟩⟩
  have h₃ := (h₂.rely (List.Subset.refl _) hr₃).heard .newId invId
  refine Watch.Safe.stmt_wait fun v₄ tr₄ hr₄ _ _ =>
    ⟨Guard.Writes.of_same fun k x => proj_congr rfl k, .of_txn rfl, ?_⟩
  rw [Watch.keeps_txn rfl]
  have h₄ := (h₃.rely (List.Subset.refl _) hr₄).grow
    (v₄.upsertInventory invId item.itemId item.warehouseId
      (ar.sub ((Option.map Inventory.quantity (v₁.inventories.get?
        (item.itemId, item.warehouseId))).getD 0) item.quantity)) _
    (hlock true) rfl
  refine Watch.Safe.ask_bind fun v₅ tr₅ hr₅ => ⟨trivial, fun txId =>
    ⟨Guard.Hears.of_none fun k => about_called k _ _, ?_⟩⟩
  have h₅ := (h₄.rely (List.Subset.refl _) hr₅).heard .newId txId
  rw [← Prog.bind_ret (Prog.insert _ _ _)]
  refine Watch.Safe.writeIf_bind fun v₆ tr₆ hr₆ _ _ => ⟨fun _ _ => .of_txn rfl, fun _ => ?_⟩
  have h₆ := h₅.rely (List.Subset.refl _) hr₆
  refine ⟨logPick_writes (List.mem_append_left _ h₆.mem) _ _ _ _, .of_txn rfl, ?_⟩
  rw [Watch.keeps_txn rfl, List.append_nil]
  refine Watch.Safe.ret fun v₇ tr₇ hr₇ => ⟨(h₆.book item _ _ _).rely (List.Subset.refl _) hr₇, ?_⟩
  exact ((hseen.snoc v₁).snoc v₄).snoc v₆

/-- One line: the counter of its material is written, and the quantity is journalled. -/
theorem pickItem_safe (h : Picking ar db W v₀ tr₀ lines booked own v tr) (hseen : Seen v₀ n vs)
    (hbefore : ∀ m, (pickWatch ar db).Holds (materialKey m) v₀ tr₀) (item : PickItem) :
    (pickWatch ar db).Safe (.pick ctx W request)
      (fun _ vs own v tr => Picking ar db W v₀ tr₀ (lines ++ [item]) (booked + item.quantity)
        own v tr ∧ Seen v₀ (n + 5) vs)
      (pickItem ar W item) vs own v tr := by
  refine Watch.Safe.selectForUpdate_bind rfl fun v₁ tr₁ hr₁ _ _ => ?_
  have h₁ := h.rely (List.Subset.refl _) hr₁
  refine Watch.Safe.orFail_bind fun mat hmat => Watch.Safe.ensure_bind fun hle => ?_
  obtain ⟨hget, hW⟩ := Option.filter_eq_some_iff.mp hmat
  have hkeys : lockRow .workOrderMaterials item.materialId
      (WorkOrderMaterialPick.material item.materialId W v₁).isSome =
        [materialKey item.materialId] := by
    rw [hmat]
    rfl
  rw [hkeys]
  have htraced : Traced ar db W v₀ lines item.materialId v₁ tr₁ := by
    cases hnames : names item.materialId lines with
    | true => exact (h₁.touched _ hnames).2.1
    | false =>
      refine h₁.traced_of_fresh hbefore hnames (hr₁.rest _ (fun hin => ?_) (not_strays _)) hget
        (of_decide_eq_true hW)
      rw [h.fresh _ hin] at hnames
      cases hnames
  -- the material is locked now
  refine Watch.Safe.update_bind fun v₂ tr₂ hr₂ _ _ => ?_
  have h₂ := h₁.rely (List.subset_append_left _ _) hr₂
  have hstate := hr₂.state_eq (k := materialKey item.materialId)
    (List.mem_append_right _ List.mem_cons_self)
  have hget₂ := (get?_of_state hstate).1.trans hget
  have hhas : v₂.workOrderMaterials.has item.materialId = true := Table.has_iff.mpr ⟨mat, hget₂⟩
  refine ⟨writeMaterial_writes (List.mem_append_left _ (List.mem_append_right _
    List.mem_cons_self)) _, .of_txn rfl, ?_⟩
  rw [Watch.keeps_txn rfl, hhas]
  have hnew : ∀ k ∈ (own ++ [materialKey item.materialId]) ++
      lockRow .workOrderMaterials item.materialId true,
      k ∈ own ∨ k = materialKey item.materialId := by
    intro k hk
    rcases List.mem_append.mp hk with hk | hk
    · exact (List.mem_append.mp hk).imp_right List.mem_singleton.mp
    · exact .inr (List.mem_singleton.mp hk)
  have hwritten := h₂.write ((own ++ [materialKey item.materialId]) ++
      lockRow .workOrderMaterials item.materialId true)
    (htraced.congr hstate) hget₂ (by simpa using hle)
    (fun k hk => List.mem_append_left _ (List.mem_append_left _ hk))
    (List.mem_append_left _ (List.mem_append_right _ List.mem_cons_self))
    (fun id hid => (hnew _ hid).resolve_right fun heq => by cases heq)
    fun m hm => (hnew _ hm).imp_right fun heq => by
      cases heq
      rfl
  refine Watch.Safe.mono (issue_safe hwritten ((hseen.snoc v₁).snoc v₂) item) ?_
  exact fun _ _ _ _ _ hpost => hpost

/-- All lines, one after the other. -/
theorem items_safe (hbefore : ∀ m, (pickWatch ar db).Holds (materialKey m) v₀ tr₀)
    (items : List PickItem) {lines : List PickItem}
    (h : Picking ar db W v₀ tr₀ lines (total lines) own v tr)
    (hseen : Seen v₀ (5 * lines.length) vs) :
    (pickWatch ar db).Safe (.pick ctx W request)
      (fun _ vs own v tr => Picking ar db W v₀ tr₀ (lines ++ items) (total (lines ++ items))
        own v tr ∧ Seen v₀ (5 * (lines ++ items).length) vs)
      (Prog.forEach items (pickItem ar W)) vs own v tr := by
  induction items generalizing lines vs own v tr with
  | nil =>
    refine Watch.Safe.ret fun v' tr' hr => ?_
    rw [List.append_nil]
    exact ⟨h.rely (List.Subset.refl _) hr, hseen⟩
  | cons item items ih =>
    refine Watch.Safe.bind (Watch.Safe.mono (pickItem_safe h hseen hbefore item) ?_)
    rintro _ vs own v tr ⟨hnext, hseen'⟩
    rw [← WorkOrderMaterialPick.total_append] at hnext
    have hrest := ih hnext (by simpa [Nat.mul_add] using hseen')
    rwa [List.append_assoc] at hrest

/-! ## The whole pick -/

/-- A pick is on record with its work order and with the materials that it names. -/
theorem about_pick {k : Key}
    (h : (pickWatch ar db).about k (.committed (.pick ctx W request)) = true) :
    k = workOrderKey W ∨ ∃ m, k = materialKey m ∧ names m request.items = true := by
  rcases k with _ | ⟨tn, id⟩
  · cases h
  · cases tn with
    | workOrders =>
      obtain rfl : W = id := of_decide_eq_true h
      exact .inl rfl
    | workOrderMaterials => exact .inr ⟨id, rfl, h⟩
    | _ => cases h

/-- What the row of the order guards when the pick is on record. -/
theorem Picking.orderInv
    (h : Picking ar db W v₀ tr₀ request.items (total request.items) own v tr)
    (hbefore : (pickWatch ar db).Holds (workOrderKey W) v₀ tr₀)
    (hstatus : Pickable (v₀.workOrderStatus? W)) :
    OrderInv (db.pickJournal W) (v.workOrderStatus? W) (v.pickJournal W)
      ((pickWatch ar db).log (workOrderKey W) tr ++ [.committed (.pick ctx W request)]) := by
  have hb : OrderInv _ _ _ _ := hbefore
  refine ⟨fun e p _ _ => ?_, ?_⟩
  · rw [h.status]
    exact hstatus
  · rw [h.journal, hb.journal, h.log, List.map_append, List.sum_append, add_assoc,
      List.map_singleton, List.sum_singleton]
    rfl

/-- What the row of a material guards when a pick that names it is on record. -/
theorem Picking.materialInv
    (h : Picking ar db W v₀ tr₀ request.items (total request.items) own v tr)
    (hadmits : WorkOrderMaterialPick.Admits ar W request.items v₀) {m : ID}
    (hm : names m request.items = true) :
    MaterialInv (picked (db.workOrderMaterials.get? m)) m (v.workOrderMaterials.get? m)
      ((pickWatch ar db).log (materialKey m) tr ++ [.committed (.pick ctx W request)]) := by
  obtain ⟨-, ⟨⟨r, hr, hW, hrequired⟩, hsum, hbefore, hrefers⟩, hfits, hle⟩ := h.touched m hm
  obtain ⟨item, hitem, hid⟩ := List.any_eq_true.mp hm
  obtain rfl := of_decide_eq_true hid
  obtain ⟨hword, hnonneg⟩ := hadmits.2 item hitem
  -- nothing was lost when the counter was brought into the word
  have hpicked : picked (v.workOrderMaterials.get? item.materialId) =
      picked (v₀.workOrderMaterials.get? item.materialId) +
        asks item.materialId request.items := hfits.symm.trans (hsum.trans hword)
  refine ⟨?_, fun e he => ?_, fun r' hr' hr'le => ⟨?_, hle r' hr'⟩⟩
  · rw [hpicked, hbefore, List.map_append, List.sum_append, add_assoc, List.map_singleton,
      List.sum_singleton]
    rfl
  · rcases List.mem_append.mp he with he | he
    · obtain ⟨items, hpick⟩ := hrefers e he
      exact ⟨r, items, hr, hW ▸ hpick⟩
    · rw [List.mem_singleton.mp he]
      exact ⟨r, request.items, hr, hW ▸ rfl⟩
  · obtain rfl := Option.some.inj (hr.symm.trans hr')
    rw [← hr, hpicked]
    exact hnonneg (hrequired hr'le)

theorem Picking.done (h : Picking ar db W v₀ tr₀ request.items (total request.items) own v tr)
    (hbefore : (pickWatch ar db).Holds (workOrderKey W) v₀ tr₀)
    (hstatus : Pickable (v₀.workOrderStatus? W))
    (hadmits : WorkOrderMaterialPick.Admits ar W request.items v₀)
    (hkept : (pickWatch ar db).Kept own v tr own' v' tr') :
    (pickWatch ar db).Done (.pick ctx W request) own' v' tr' := by
  have howned : ∀ k, (pickWatch ar db).about k (.committed (.pick ctx W request)) = true →
      k ∈ own := by
    intro k hk
    rcases about_pick hk with rfl | ⟨m, rfl, hm⟩
    · exact h.mem
    · exact (h.touched m hm).1
  refine ⟨fun k hk => ?_, fun k hk => ?_⟩
  · cases habout : (pickWatch ar db).about k (.committed (.pick ctx W request)) with
    | false =>
      by_cases hin : k ∈ own
      · -- neither the order nor one of its materials
        refine holds_of_other (fun id hid => ?_) (fun m hm => ?_) _ _
        · subst hid
          rw [h.orders id hin] at habout
          exact absurd habout (by simp [pickWatch])
        · subst hm
          exact absurd ((h.fresh m hin).symm.trans habout) (by decide)
      · unfold Guard.Holds
        rw [Guard.log_snoc_of_not_about habout]
        exact hkept.rest k hk hin
    | true =>
      have hstate := hkept.state_eq k (howned k habout)
      unfold Guard.Holds
      rw [Guard.log_snoc_of_about habout, (Prod.mk.inj hstate).1, (Prod.mk.inj hstate).2]
      rcases about_pick habout with rfl | ⟨m, rfl, hm⟩
      · exact h.orderInv hbefore hstatus
      · exact h.materialInv hadmits hm
  · rw [Watch.lasting_txn rfl]
    exact ⟨hkept.sub (howned k hk), .refl _⟩

end Picking

end pickWatch

end Slab
