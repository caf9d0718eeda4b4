import Slab.Erp.WorkOrderStatus

/-!
# Picks of materials for a work order

A pick locks its work order, and then each material that it names. The picks that were committed
can be counted: on the materials, and in the journal of the stock.

## Main definitions

- `WorkOrderMaterialPick.Admits` — what a pick may ask for: no less than nothing in all of a
  material, and nothing of an order that is completed
- `pickWatch` — what the row of a work order guards, and that of a material

## Main results

- `pickWatch.sum_log_eq` — what was picked of a material can be read off its order
-/

namespace Slab

open Txn

namespace WorkOrderMaterialPick

/-! ## Lines, and what they add up to -/

/-- The lines name the material. -/
def names (m : ID) (items : List PickItem) : Bool := items.any fun item => item.materialId = m

/-- What the lines ask for of one material. -/
def asks (m : ID) (items : List PickItem) : ℤ :=
  (items.map fun item => if item.materialId = m then item.quantity else 0).sum

/-- What the lines ask for. -/
def total (items : List PickItem) : ℤ := (items.map PickItem.quantity).sum

def picked (row : Option WorkOrderMaterial) : ℤ := (row.bind WorkOrderMaterial.pickedQty).getD 0

def required (row : Option WorkOrderMaterial) : ℤ :=
  (row.map WorkOrderMaterial.requiredQty).getD 0

theorem names_append (m : ID) (items : List PickItem) (item : PickItem) :
    names m (items ++ [item]) = (names m items || decide (item.materialId = m)) := by
  simp [names]

theorem asks_append (m : ID) (items : List PickItem) (item : PickItem) :
    asks m (items ++ [item]) =
      asks m items + if item.materialId = m then item.quantity else 0 := by
  simp [asks]

theorem total_append (items : List PickItem) (item : PickItem) :
    total (items ++ [item]) = total items + item.quantity := by
  simp [total]

theorem asks_of_not_names {m : ID} {items : List PickItem} (h : names m items = false) :
    asks m items = 0 := by
  refine List.sum_eq_zero fun x hx => ?_
  obtain ⟨item, hitem, rfl⟩ := List.mem_map.mp hx
  have hne := List.any_eq_false.mp h item hitem
  rw [if_neg (by simpa using hne)]

/-- Each line is for one material. -/
theorem sum_asks {s : Finset ID} {items : List PickItem}
    (h : ∀ item ∈ items, item.materialId ∈ s) : ∑ m ∈ s, asks m items = total items := by
  induction items with
  | nil => simp [asks, total]
  | cons item items ih =>
    have hrest := ih fun x hx => h x (List.mem_cons_of_mem item hx)
    simp only [asks, total, List.map_cons, List.sum_cons, Finset.sum_add_distrib] at hrest ⊢
    rw [hrest, Finset.sum_ite_eq, if_pos (h item List.mem_cons_self)]

/-- Work order and lines of a pick. -/
def pick? : Event WorkOrderRequest Answer → Option (ID × List PickItem)
  | .committed (.pick _ workOrderId request) => some (workOrderId, request.items)
  | _ => none

/-- What the event takes of one material, in all. -/
def eventAsks (m : ID) (e : Event WorkOrderRequest Answer) : ℤ :=
  (pick? e).elim 0 fun p => asks m p.2

def eventTotal (e : Event WorkOrderRequest Answer) : ℤ := (pick? e).elim 0 fun p => total p.2

end WorkOrderMaterialPick

open WorkOrderMaterialPick (names asks total picked required pick? eventAsks eventTotal)

/-! ## What is guarded -/

/-- The quantities journalled as picks for a work order. -/
def Db.pickJournal (db : Db) (workOrderId : ID) : ℤ :=
  ((db.inventoryTransactions.filter fun r =>
    r.referenceType = "work_order_pick" ∧ r.referenceId = workOrderId).map
      InventoryTransaction.quantity).sum

/-- The quantities picked of the materials of a work order. -/
def Db.pickedTotal (db : Db) (workOrderId : ID) : ℤ :=
  db.workOrderMaterials.tally (fun r => r.workOrderId = workOrderId) fun r => picked (some r)

/-- Materials can be picked while the order is released or in progress. -/
def Pickable (status : Option ℤ) : Prop :=
  status = some WorkOrderStatus.released.toI16 ∨ status = some WorkOrderStatus.inProgress.toI16

instance : DecidablePred Pickable := fun _ => inferInstanceAs (Decidable (_ ∨ _))

/-- The picked quantity of a material is neither negative nor above the required one, unless that
is negative. -/
def WithinRequired (r : WorkOrderMaterial) : Prop :=
  0 ≤ r.requiredQty → 0 ≤ picked (some r) ∧ picked (some r) ≤ r.requiredQty

instance : DecidablePred WithinRequired := fun _ => inferInstanceAs (Decidable (_ → _ ∧ _))

/-- What one row guards: the status of a work order with the quantities journalled for it, or a
material. -/
inductive PickPart where
  | order (status : Option ℤ) (journal : ℤ)
  | material (row : Option WorkOrderMaterial)
  | other

def PickPart.mapOrder (f : Option ℤ → Option ℤ) (g : ℤ → ℤ) : PickPart → PickPart
  | .order status journal => .order (f status) (g journal)
  | s => s

def PickPart.mapMaterial (f : Option WorkOrderMaterial → Option WorkOrderMaterial) :
    PickPart → PickPart
  | .material row => .material (f row)
  | s => s

/-- Work orders and materials stay, and what is required of whom. -/
def PickPart.Leads : PickPart → PickPart → Prop
  | .order (some _) _, t => ∃ x j, t = .order (some x) j
  | .material (some r), t => ∃ r', t = .material (some r') ∧ r'.workOrderId = r.workOrderId ∧
      r'.requiredQty = r.requiredQty
  | _, _ => True

theorem PickPart.Leads.refl (s : PickPart) : s.Leads s := by
  rcases s with ⟨_ | x, j⟩ | ⟨_ | r⟩ | _
  · trivial
  · exact ⟨x, j, rfl⟩
  · trivial
  · exact ⟨r, rfl, rfl, rfl⟩
  · trivial

theorem PickPart.Leads.trans {s t u : PickPart} (h : s.Leads t) (h' : t.Leads u) : s.Leads u := by
  rcases s with ⟨_ | x, j⟩ | ⟨_ | r⟩ | _
  · trivial
  · obtain ⟨y, k, rfl⟩ := h
    exact h'
  · trivial
  · obtain ⟨r', rfl, horder, hrequired⟩ := h
    obtain ⟨r'', rfl, horder', hrequired'⟩ := h'
    exact ⟨r'', rfl, horder'.trans horder, hrequired'.trans hrequired⟩
  · trivial

/-- Orders were pickable when a pick was the last that happened to them, and everything picked is
in the journal. -/
structure OrderInv (base : ℤ) (status : Option ℤ) (journal : ℤ)
    (log : List (Event WorkOrderRequest Answer)) : Prop where
  gate : ∀ e p, log.getLast? = some e → pick? e = some p → Pickable status
  journal : journal = base + (log.map eventTotal).sum

/-- What was picked of a material adds up, and was for its own order. -/
structure MaterialInv (base : ℤ) (m : ID) (row : Option WorkOrderMaterial)
    (log : List (Event WorkOrderRequest Answer)) : Prop where
  sum : picked row = base + (log.map (eventAsks m)).sum
  refers : ∀ e ∈ log, ∃ r items, row = some r ∧ pick? e = some (r.workOrderId, items)
  within : ∀ r, row = some r → WithinRequired r

/-- What a pick of `items` may ask for when it finds `v`: the order is not completed yet, and of no
material will less than nothing have been picked, or more than 64 bits hold. -/
def WorkOrderMaterialPick.Admits (ar : Arith) (workOrderId : ID) (items : List PickItem)
    (v : Db) : Prop :=
  (∀ x ∈ v.workOrderStatus? workOrderId, x < WorkOrderStatus.completed.toI16) ∧
  ∀ item ∈ items,
    ar.Fits (picked (v.workOrderMaterials.get? item.materialId) +
      asks item.materialId items) ∧
    (0 ≤ required (v.workOrderMaterials.get? item.materialId) →
      0 ≤ picked (v.workOrderMaterials.get? item.materialId) + asks item.materialId items)

instance (ar : Arith) (workOrderId : ID) (items : List WorkOrderMaterialPick.PickItem) (v : Db) :
    Decidable (WorkOrderMaterialPick.Admits ar workOrderId items v) :=
  inferInstanceAs (Decidable (_ ∧ _))

/-- When a pick has gone through its lines, it has not asked for more than it may have: judged by
what it found when it locked the order. -/
def WorkOrderRequest.PicksWithin (ar : Arith) (r : WorkOrderRequest) (vs : List Db) : Prop :=
  match r, vs with
  | .pick _ id request, v :: us => us.length = 5 * request.items.length →
      WorkOrderMaterialPick.Admits ar id request.items v
  | _, _ => True

instance (ar : Arith) (r : WorkOrderRequest) (vs : List Db) : Decidable (r.PicksWithin ar vs) :=
  match r, vs with
  | .pick _ _ _, _ :: _ => inferInstanceAs (Decidable (_ → _))
  | .pick _ _ _, [] | .create _ _, _ | .release _ _, _ | .report _ _ _ _, _ | .complete _ _, _ =>
    inferInstanceAs (Decidable True)

/-- What the rows of work orders and their materials guard; `db` is what a run begins with. -/
def pickWatch (ar : Arith) (db : Db) : Watch Db Key PickPart WorkOrderRequest Answer where
  proj k v :=
    match k with
    | .row .workOrders id => .order (v.workOrderStatus? id) (v.pickJournal id)
    | .row .workOrderMaterials id => .material (v.workOrderMaterials.get? id)
    | _ => .other
  about k e :=
    match k, e with
    | .row .workOrders id, .committed (.pick _ workOrderId _) => workOrderId = id
    | .row .workOrders id, .committed (.complete _ workOrderId) => workOrderId = id
    | .row .workOrderMaterials id, .committed (.pick _ _ request) => names id request.items
    | _, _ => false
  inv k s log :=
    match k, s with
    | .row .workOrders id, .order status journal => OrderInv (db.pickJournal id) status journal log
    | .row .workOrderMaterials id, .material row =>
      MaterialInv (picked (db.workOrderMaterials.get? id)) id row log
    | _, _ => True
  moves _ s t := s.1.Leads t.1
  moves_refl _ _ := .refl _
  moves_trans _ _ _ _ h h' := h.trans h'
  pre _ _ _ := True
  assumes _ _ _ _ := True
  auto := WorkOrderRequest.auto
  claims _ _ := []
  expects r vs _ := r.PicksWithin ar vs
  claims_nil := Watch.nothing_claimed Db Key WorkOrderRequest

abbrev workOrderKey (id : ID) : Key := .row .workOrders id

abbrev materialKey (m : ID) : Key := .row .workOrderMaterials m

namespace pickWatch

variable {ar : Arith} {db : Db}

theorem not_strays (k : Key) : ¬(pickWatch ar db).Strays k := by
  rintro ⟨r, vs, -, h⟩
  cases h

/-- All that is guarded. -/
def foot (v : Db) : (ID → Option ℤ) × (ID → ℤ) × (ID → Option WorkOrderMaterial) :=
  (v.workOrderStatus?, v.pickJournal, v.workOrderMaterials.get?)

theorem proj_congr {x y : Db} (h : foot x = foot y) (k : Key) :
    (pickWatch ar db).proj k x = (pickWatch ar db).proj k y := by
  obtain ⟨hstatus, hrest⟩ := Prod.mk.inj h
  obtain ⟨hjournal, hmaterial⟩ := Prod.mk.inj hrest
  rcases k with _ | ⟨tn, id⟩
  · rfl
  · cases tn with
    | workOrders => exact congrArg₂ PickPart.order (congrFun hstatus id) (congrFun hjournal id)
    | workOrderMaterials => exact congrArg PickPart.material (congrFun hmaterial id)
    | _ => rfl

theorem about_called (k : Key) (q : Ask) (a : Answer q) :
    (pickWatch ar db).about k (.called q a) = false := by
  rcases k with _ | ⟨tn, id⟩
  · rfl
  · cases tn <;> rfl

/-- Whatever leaves all of it alone is neutral. -/
theorem neutral {α : Type} {p : Handler α} (h : p.Preserves foot) :
    (pickWatch ar db).toGuard.Neutral p :=
  .of_preserves h (fun k _ _ hxy => proj_congr hxy k) (fun k q a => about_called k q a)
    fun _ _ _ => trivial

/-- What guards neither a work order nor a material has nothing to keep. -/
theorem holds_of_other {k : Key} (horder : ∀ id, k ≠ workOrderKey id)
    (hmaterial : ∀ m, k ≠ materialKey m) (v : Db)
    (tr : List (Event WorkOrderRequest Answer)) : (pickWatch ar db).Holds k v tr := by
  rcases k with _ | ⟨tn, id⟩
  · trivial
  · cases tn with
    | workOrders => exact absurd rfl (horder id)
    | workOrderMaterials => exact absurd rfl (hmaterial id)
    | _ => trivial

/-! ## Records -/

section Records

variable {m W : ID} {tr tr' : List (Event WorkOrderRequest Answer)}

/-- Elements that count nothing need not be counted. -/
theorem sum_filter_of_zero {α : Type} {p : α → Bool} {f : α → ℤ} {xs : List α}
    (h : ∀ a ∈ xs, p a = false → f a = 0) : ((xs.filter p).map f).sum = (xs.map f).sum := by
  induction xs with
  | nil => rfl
  | cons x xs ih =>
    have hrest := ih fun a ha => h a (List.mem_cons_of_mem x ha)
    cases hx : p x with
    | true => simp [hx, hrest]
    | false => simp [hx, hrest, h x List.mem_cons_self hx]

theorem eventAsks_of_not_about {e : Event WorkOrderRequest Answer}
    (h : (pickWatch ar db).about (materialKey m) e = false) : eventAsks m e = 0 := by
  cases e with
  | called q a => rfl
  | committed r =>
    cases r with
    | pick ctx id request => exact WorkOrderMaterialPick.asks_of_not_names h
    | _ => rfl

theorem about_of_pick? {e : Event WorkOrderRequest Answer}
    {items : List WorkOrderMaterialPick.PickItem}
    (h : pick? e = some (W, items)) : (pickWatch ar db).about (workOrderKey W) e = true := by
  cases e with
  | called q a => cases h
  | committed r =>
    cases r with
    | pick ctx id request =>
      obtain ⟨rfl, -⟩ := Prod.mk.inj (Option.some.inj h)
      exact decide_eq_true rfl
    | _ => cases h

/-- What was picked of a material of the order can be read off what happened to the order. -/
theorem sum_log_eq
    (h : ∀ e ∈ (pickWatch ar db).log (materialKey m) tr, ∃ items, pick? e = some (W, items)) :
    (((pickWatch ar db).log (materialKey m) tr).map (eventAsks m)).sum =
      (((pickWatch ar db).log (workOrderKey W) tr).map (eventAsks m)).sum := by
  have hmaterial : (((pickWatch ar db).log (materialKey m) tr).map (eventAsks m)).sum =
      (tr.map (eventAsks m)).sum :=
    sum_filter_of_zero fun e _ => eventAsks_of_not_about
  have horder : (((pickWatch ar db).log (workOrderKey W) tr).map (eventAsks m)).sum =
      (tr.map (eventAsks m)).sum :=
    sum_filter_of_zero fun e he hnot => by
      cases hm : (pickWatch ar db).about (materialKey m) e with
      | false => exact eventAsks_of_not_about hm
      | true =>
        obtain ⟨items, hpick⟩ := h e (List.mem_filter.mpr ⟨he, hm⟩)
        rw [about_of_pick? hpick] at hnot
        cases hnot
  exact hmaterial.trans horder.symm

end Records

end pickWatch

end Slab
