import Slab.Erp.OrderCreation
import Slab.Erp.Sales
import Slab.Erp.SalesOrders
import Slab.Erp.Boms
import Slab.Erp.Planning

/-!
# The demand of open orders

What `mrp_calculate` reports as gross demand against what the open order lines still need, along
every run of sales orders, deliveries and BOMs.

## Main definitions

- `Db.undelivered` — what is not delivered yet, times one released BOM of each ordered item
- `DemandMet` — the query reports it
- `Db.Source`, `Db.Plain` — released BOMs that need something, and order lines that explode once
- `DemandRequest.run`, `DemandRequest.Keeps` — the handlers, and when they keep lines plain

## Main results

- `demandMet_of_plain` — over plain lines the query reports it
- `DemandRequest.keeps_plain` — one request
- `demand_met` — every run
-/

namespace Slab

open Txn Relation

/-! ## What is needed -/

namespace Db

/-- A released BOM for each item that has one. -/
def Picks (db : Db) (pick : ID → Option Bom) : Prop :=
  ∀ item, match pick item with
    | some b => b ∈ db.released item
    | none => db.released item = []

/-- What a unit of an item needs of a material, by the BOM that is picked. -/
def pickedQty (db : Db) (pick : ID → Option Bom) (item material : ID) : ℤ :=
  ((pick item).map fun b => db.perUnit b material).getD 0

/-- What open order lines have not got yet, in terms of a material. -/
def undelivered (db : Db) (pick : ID → Option Bom) (material : ID) : ℤ :=
  (db.openLines.map fun l =>
    (l.quantity - l.deliveredQty) * db.pickedQty pick l.itemId material).sum

/-- The BOM needs something of some material. -/
def Needs (db : Db) (b : Bom) : Prop := ∃ material, db.perUnit b material ≠ 0

/-- A released BOM of the item that needs something. -/
def Source (db : Db) (item : ID) (b : Bom) : Prop := b ∈ db.released item ∧ db.Needs b

/-- An order line that explodes through one BOM at most, and as a whole. -/
structure Plain (db : Db) (l : SalesOrderLine) : Prop where
  once : ∀ b b', db.Source l.itemId b → db.Source l.itemId b' → b = b'
  whole : ∀ b, db.Source l.itemId b → l.deliveredQty = 0

end Db

/-- The gross demand of each material is what is undelivered, and what is not listed has none. -/
def DemandMet (ar : Arith) (db : Db) : Prop :=
  ∃ pick, db.Picks pick ∧
    (∀ x ∈ PlanningPort.mrpCalculate ar db, x.grossDemand = db.undelivered pick x.itemId) ∧
    ∀ i ∈ db.items.rows, (∀ x ∈ PlanningPort.mrpCalculate ar db, x.itemId ≠ i.id) →
      db.undelivered pick i.id = 0

section Plain

variable {db : Db}

/-- Sources are picked first. -/
theorem exists_picks (db : Db) : ∃ pick, db.Picks pick ∧
    ∀ item b, db.Source item b → ∃ b', pick item = some b' ∧ db.Source item b' := by
  have hone : ∀ item, ∃ x : Option Bom, (match x with
      | some b => b ∈ db.released item
      | none => db.released item = []) ∧
      ∀ b, db.Source item b → ∃ b', x = some b' ∧ db.Source item b' := by
    intro item
    by_cases h : ∃ b, db.Source item b
    · obtain ⟨b, hb⟩ := h
      exact ⟨some b, hb.1, fun _ _ => ⟨b, rfl, hb⟩⟩
    · cases hr : db.released item with
      | nil => exact ⟨none, rfl, fun b hb => absurd ⟨b, hb⟩ h⟩
      | cons b more => exact ⟨some b, List.mem_cons_self, fun b' hb' => absurd ⟨b', hb'⟩ h⟩
  choose pick hpick hsource using hone
  exact ⟨pick, hpick, hsource⟩

theorem nodup_released (db : Db) (item : ID) : (db.released item).Nodup :=
  (List.Nodup.of_map _ db.boms.nodup).sublist List.filter_sublist

/-- A plain line explodes to what it has not got yet. -/
theorem exploded_of_plain {pick : ID → Option Bom} (hpick : db.Picks pick)
    (hsource : ∀ item b, db.Source item b → ∃ b', pick item = some b' ∧ db.Source item b')
    {l : SalesOrderLine} (h : db.Plain l) (material : ID) :
    db.exploded material l =
      (l.quantity - l.deliveredQty) * db.pickedQty pick l.itemId material := by
  by_cases hex : ∃ b, db.Source l.itemId b
  · obtain ⟨b, hb⟩ := hex
    obtain ⟨b', hb', hs⟩ := hsource _ b hb
    have hothers : ∀ c, c ≠ b' → c ∈ db.released l.itemId →
        l.quantity * db.perUnit c material = 0 := by
      intro c hne hc
      by_cases hzero : db.perUnit c material = 0
      · rw [hzero, mul_zero]
      · exact absurd (h.once c b' ⟨hc, material, hzero⟩ hs) hne
    have hcount : (db.released l.itemId).count b' = 1 :=
      List.count_eq_one_of_mem (nodup_released db _) hs.1
    rw [Db.exploded, List.sum_map_eq_nsmul_single b' _ hothers, hcount, one_nsmul,
      h.whole b hb, sub_zero, Db.pickedQty, hb']
    rfl
  · have hzero : ∀ c ∈ db.released l.itemId, db.perUnit c material = 0 := by
      intro c hc
      by_contra hne
      exact hex ⟨c, hc, material, hne⟩
    have hpicked : db.pickedQty pick l.itemId material = 0 := by
      have hp := hpick l.itemId
      unfold Db.pickedQty
      cases hb : pick l.itemId with
      | none => rfl
      | some b =>
        rw [hb] at hp
        exact hzero b hp
    rw [hpicked, mul_zero, Db.exploded]
    refine List.sum_eq_zero fun x hx => ?_
    obtain ⟨c, hc, rfl⟩ := List.mem_map.mp hx
    rw [hzero c hc, mul_zero]

/-- Over plain lines the gross demand is what is undelivered. -/
theorem demandMet_of_plain (ar : Arith)
    (horders : ∀ l ∈ db.salesOrderLines.rows, db.salesOrders.has l.orderId = true)
    (hplain : ∀ l ∈ db.openLines, db.Plain l) : DemandMet ar db := by
  obtain ⟨pick, hpick, hsource⟩ := exists_picks db
  have hgross : ∀ material,
      coalesce (PlanningPort.grossDemand? db material) = db.undelivered pick material := by
    intro material
    rw [PlanningPort.coalesce_grossDemand horders, Db.undelivered]
    congr 1
    exact List.map_congr_left fun l hl => exploded_of_plain hpick hsource (hplain l hl) material
  refine ⟨pick, hpick, fun x hx => ?_, fun i hi habsent => ?_⟩
  · obtain ⟨i, hi, -, rfl⟩ := PlanningPort.mem_mrpCalculate.mp hx
    rw [PlanningPort.mrpItem_joined]
    exact hgross i.id
  · have hnone : PlanningPort.grossDemand? db i.id = none := by
      rw [← Option.not_isSome_iff_eq_none]
      intro hsome
      exact habsent _ (PlanningPort.mem_mrpCalculate.mpr ⟨i, hi, .inl hsome, rfl⟩) rfl
    rw [← hgross, hnone]
    rfl

end Plain

/-! ## Requests -/

/-- Something that has to do with neither sales order lines nor BOMs. -/
structure DemandBystander where
  run : Handler Unit
  keeps : run.Preserves fun db =>
    (db.salesOrders.has, db.salesOrderLines, db.boms, db.bomItems)

inductive DemandRequest where
  | createOrder (ctx : Operator) (request : SalesOrderCreate.CreateSalesOrderRequest)
  | submitOrder (ctx : Operator) (id : ID)
  | approveOrder (ctx : Operator) (id : ID)
  | deliver (ctx : Operator) (request : SalesDeliveryCreate.CreateDeliveryRequest)
  | createBom (ctx : Operator) (request : BomCreate.CreateBomRequest)
  | releaseBom (ctx : Operator) (id : ID)
  | other (program : DemandBystander)

/-- What a delivery brings of an order line, line by line. -/
def broughtTo (orderLineId : ID) (lines : List SalesDeliveryCreate.DeliveryLineInput) : List ℤ :=
  (lines.filter fun line => line.orderLineId = orderLineId).map (·.quantity)

namespace DemandRequest

variable (ar : Arith)

/-- The transaction of a request, its response left out. -/
def run : DemandRequest → Handler Unit
  | createOrder ctx request => do
    let _ ← SalesOrderCreate.execute ctx request
    pure ()
  | submitOrder ctx id => do
    let _ ← SalesOrderSubmit.execute ctx id
    pure ()
  | approveOrder ctx id => do
    let _ ← SalesOrderApprove.execute ctx id
    pure ()
  | deliver ctx request => do
    let _ ← SalesDeliveryCreate.execute ar ctx request
    pure ()
  | createBom ctx request => do
    let _ ← BomCreate.execute ctx request
    pure ()
  | releaseBom ctx id => do
    let _ ← BomRelease.execute ctx id
    pure ()
  | other program => program.run

/-- What keeps lines plain: items with one source are ordered, lines with a source are delivered as
a whole, and a source is released where no other is and nothing is delivered. -/
def Keeps (v : Db) : DemandRequest → Prop
  | createOrder _ request => ∀ line ∈ request.lines, ∀ b b',
    v.Source line.itemId b → v.Source line.itemId b' → b = b'
  | deliver _ request => ∀ line ∈ request.lines, ∀ l,
    v.salesOrderLines.get? line.orderLineId = some l →
      (∀ b, ¬ v.Source l.itemId b) ∨
        l.quantity ≤ ar.addAll l.deliveredQty (broughtTo l.id request.lines)
  | releaseBom _ id => ∀ b, v.boms.get? id = some b → v.Needs b →
    ∀ l ∈ v.openLines, l.itemId = b.itemId →
      (∀ b', ¬ v.Source l.itemId b') ∧ l.deliveredQty = 0
  | _ => True

end DemandRequest

/-- Every line has its order, and the open ones are plain. -/
structure Db.PlainLines (db : Db) : Prop where
  orders : ∀ l ∈ db.salesOrderLines.rows, db.salesOrders.has l.orderId = true
  plain : ∀ l ∈ db.openLines, db.Plain l

section Steps

variable {ar : Arith} {v w : Db}

theorem mem_openLines {db : Db} {l : SalesOrderLine} :
    l ∈ db.openLines ↔ l ∈ db.salesOrderLines.rows ∧ l.closed = false := by
  simp [Db.openLines]

/-- Sources are a matter of BOMs. -/
theorem source_congr (hboms : w.boms = v.boms) (hitems : w.bomItems = v.bomItems) :
    w.Source = v.Source := by
  funext item b
  simp only [Db.Source, Db.Needs, Db.released, Db.perUnit, hboms, hitems]

theorem Db.Plain.of_source {l : SalesOrderLine} (h : v.Plain l)
    (hsource : ∀ b, w.Source l.itemId b → v.Source l.itemId b) : w.Plain l where
  once b b' hb hb' := h.once b b' (hsource b hb) (hsource b' hb')
  whole b hb := h.whole b (hsource b hb)

/-- Nothing is less plain when there are no more sources and no more lines. -/
theorem Db.PlainLines.of_source (h : v.PlainLines)
    (hlines : w.salesOrderLines = v.salesOrderLines)
    (horders : ∀ id, v.salesOrders.has id = true → w.salesOrders.has id = true)
    (hsource : ∀ item b, w.Source item b → v.Source item b) : w.PlainLines where
  orders l hl := by
    rw [hlines] at hl
    exact horders _ (h.orders l hl)
  plain l hl := by
    rw [mem_openLines, hlines, ← mem_openLines] at hl
    exact (h.plain l hl).of_source (hsource _)

theorem Db.PlainLines.congr (h : v.PlainLines) (hlines : w.salesOrderLines = v.salesOrderLines)
    (horders : w.salesOrders.has = v.salesOrders.has) (hboms : w.boms = v.boms)
    (hitems : w.bomItems = v.bomItems) : w.PlainLines :=
  h.of_source hlines (fun id hid => (congrFun horders id).trans hid) fun item b hb =>
    congrFun (congrFun (source_congr hboms hitems) item) b ▸ hb

theorem Db.PlainLines.of_aside (h : v.PlainLines)
    (hs : salesOrdersAside w = salesOrdersAside v) : w.PlainLines := by
  have hlines := congrArg (fun p : Db × (ID → Bool) => p.1.salesOrderLines) hs
  have hboms := congrArg (fun p : Db × (ID → Bool) => p.1.boms) hs
  have hitems := congrArg (fun p : Db × (ID → Bool) => p.1.bomItems) hs
  exact h.congr hlines (congrArg Prod.snd hs) hboms hitems

/-! ### Orders -/

/-- The loop adds lines of the new order, of which nothing is delivered. -/
theorem SalesOrderCreate.insertLines_runs {id : ID}
    {lines : List (ID × PurchaseOrderCreate.CreateOrderLine)} {k : ℕ}
    (h : (Prog.forEach (lines.zipIdx k) (insertLine id)).Runs v w (.ok ())) :
    ∃ t : Table SalesOrderLine.id, w = { v with salesOrderLines := t } ∧
      ∀ l ∈ t.rows, l ∈ v.salesOrderLines.rows ∨
        l.orderId = id ∧ l.deliveredQty = 0 ∧ ∃ x ∈ lines, l.itemId = x.2.itemId := by
  induction lines generalizing k v with
  | nil =>
    obtain ⟨rfl, -⟩ := h
    exact ⟨_, rfl, fun l hl => .inl hl⟩
  | cons x lines ih =>
    obtain ⟨u, h₁, h₂⟩ := Prog.runs_forEach_cons_ok.mp h
    obtain ⟨hfree, rfl⟩ := insertLine_runs_ok.mp h₁
    obtain ⟨t, rfl, hrows⟩ := ih h₂
    refine ⟨t, rfl, fun l hl => ?_⟩
    rcases hrows l hl with hl | ⟨hid, hzero, y, hy, hitem⟩
    · rcases Table.mem_rows_insert hl with hl | rfl
      · exact .inl hl
      · exact .inr ⟨rfl, rfl, x, List.mem_cons_self, rfl⟩
    · exact .inr ⟨hid, hzero, y, List.mem_cons_of_mem _ hy, hitem⟩

theorem SalesOrderCreate.execute_runs_ok {ctx : Operator} {request : CreateSalesOrderRequest}
    {response : CreateSalesOrderResponse} (h : (execute ctx request).Runs v w (.ok response)) :
    ∃ (row : SalesOrder) (t : Table SalesOrderLine.id) (logs : List AuditLog),
      v.salesOrders.has row.id = false ∧
      w = { v with
        salesOrders := v.salesOrders.insert row
        salesOrderLines := t
        auditLogs := logs } ∧
      ∀ l ∈ t.rows, l ∈ v.salesOrderLines.rows ∨
        l.orderId = row.id ∧ l.deliveredQty = 0 ∧ ∃ line ∈ request.lines, l.itemId = line.itemId := by
  simp only [execute, Prog.runs_bind_ok, Prog.runs_ensure_ok, ask, Prog.runs_ask, insertRow,
    Prog.runs_insert_ok, unique_eq_none, recordOrder, Prog.runs_select, Prog.runs_orFail_ok,
    Prog.pure_eq, Prog.runs_ret] at h
  obtain ⟨_, _, ⟨rfl, -⟩, _, id, ⟨rfl, -⟩, _, code, hcode, _, found, hfound, _, _, ⟨hfree, rfl⟩, _,
    _, hloop, _, _, ⟨_, _, ⟨rfl, -⟩, _, _, ⟨rfl, -⟩, hrec⟩, rfl, -⟩ := h
  obtain rfl := (DocNumberer.nextNumber_preserves (fun db => db) _ _).runs hcode
  obtain ⟨rfl, hmap⟩ := lineIds_runs_ok hfound
  obtain ⟨t, rfl, hrows⟩ := insertLines_runs hloop
  obtain ⟨-, log, rfl⟩ := AuditService.record_runs hrec
  refine ⟨_, t, _, hfree, rfl, fun l hl => ?_⟩
  rcases hrows l hl with hl | ⟨hid, hzero, x, hx, hitem⟩
  · exact .inl hl
  · exact .inr ⟨hid, hzero, x.2, hmap ▸ List.mem_map_of_mem hx, hitem⟩

/-! ### Deliveries -/

/-- What deliveries make of an order line. -/
def LineMoves (ar : Arith) (lines : List SalesDeliveryCreate.DeliveryLineInput)
    (l₀ l : SalesOrderLine) : Prop :=
  l.id = l₀.id ∧ l.orderId = l₀.orderId ∧ l.itemId = l₀.itemId ∧ l.quantity = l₀.quantity ∧
    (broughtTo l₀.id lines = [] ∧ l = l₀ ∨ broughtTo l₀.id lines ≠ [] ∧
      l.deliveredQty = ar.addAll l₀.deliveredQty (broughtTo l₀.id lines) ∧
      l.closed = decide (l.deliveredQty ≥ l.quantity))

/-- One line, then the others. -/
theorem LineMoves.cons {line : SalesDeliveryCreate.DeliveryLineInput}
    {lines : List SalesDeliveryCreate.DeliveryLineInput} {l₀ l₁ l : SalesOrderLine}
    (h₁ : l₁ = if l₀.id = line.orderLineId then
      l₀.deliver (ar.add l₀.deliveredQty line.quantity) else l₀)
    (h : LineMoves ar lines l₁ l) : LineMoves ar (line :: lines) l₀ l := by
  obtain ⟨hid, horder, hitem, hqty, hmove⟩ := h
  by_cases hk : l₀.id = line.orderLineId
  · rw [if_pos hk] at h₁
    have hamounts : broughtTo l₀.id (line :: lines) = line.quantity :: broughtTo l₀.id lines := by
      simp [broughtTo, hk]
    subst h₁
    refine ⟨hid, horder, hitem, hqty, .inr ⟨by rw [hamounts]; exact List.cons_ne_nil _ _, ?_⟩⟩
    rw [hamounts, Arith.addAll_cons]
    rcases hmove with ⟨hnone, rfl⟩ | ⟨-, hdone, hclosed⟩
    · have hnone : broughtTo l₀.id lines = [] := hnone
      rw [hnone]
      exact ⟨rfl, rfl⟩
    · exact ⟨hdone, hclosed⟩
  · rw [if_neg hk] at h₁
    have hamounts : broughtTo l₀.id (line :: lines) = broughtTo l₀.id lines := by
      simp [broughtTo, Ne.symm hk]
    subst h₁
    refine ⟨hid, horder, hitem, hqty, ?_⟩
    rw [hamounts]
    exact hmove

theorem deliverLines_runs {orderId deliveryId : ID}
    {lines : List SalesDeliveryCreate.DeliveryLineInput}
    (h : (Prog.forEach lines (SalesDeliveryCreate.deliverLine ar orderId deliveryId)).Runs v w
      (.ok ())) :
    w.salesOrders = v.salesOrders ∧ w.boms = v.boms ∧ w.bomItems = v.bomItems ∧
      ∀ l ∈ w.salesOrderLines.rows, ∃ l₀ ∈ v.salesOrderLines.rows, LineMoves ar lines l₀ l := by
  induction lines generalizing v with
  | nil =>
    obtain ⟨rfl, -⟩ := h
    exact ⟨rfl, rfl, rfl, fun l hl => ⟨l, hl, rfl, rfl, rfl, rfl, .inl ⟨rfl, rfl⟩⟩⟩
  | cons line lines ih =>
    obtain ⟨u, h₁, h₂⟩ := Prog.runs_forEach_cons_ok.mp h
    obtain ⟨lineId, ol, hol, -, -, hissue⟩ := SalesDeliveryCreate.deliverLine_runs_ok ar h₁
    have hstock := (InventoryLedger.issue_preserves _).runs hissue
    have horders := congrArg Db.salesOrders hstock
    have hboms := congrArg Db.boms hstock
    have hitems := congrArg Db.bomItems hstock
    have hrows := congrArg Db.salesOrderLines hstock
    obtain ⟨ho, hb, hi, hmoves⟩ := ih h₂
    refine ⟨ho.trans horders, hb.trans hboms, hi.trans hitems, fun l hl => ?_⟩
    obtain ⟨l₁, hl₁, hmove⟩ := hmoves l hl
    have hsame : u.salesOrderLines = v.salesOrderLines.modify line.orderLineId
      (SalesOrderLine.deliver (ar.add ol.deliveredQty line.quantity))
      (SalesOrderLine.deliver_id _) := hrows
    rw [hsame] at hl₁
    obtain ⟨l₀, hl₀, rfl⟩ := List.mem_map.mp hl₁
    refine ⟨l₀, hl₀, LineMoves.cons ?_ hmove⟩
    by_cases hk : l₀.id = line.orderLineId
    · have hsame : ol = l₀ := by
        rw [← hk, Table.get?_of_mem hl₀] at hol
        exact (Option.some.inj hol).symm
      rw [if_pos hk, if_pos hk, hsame]
    · rw [if_neg hk, if_neg hk]

theorem SalesDeliveryCreate.execute_runs_ok {ctx : Operator} {request : CreateDeliveryRequest}
    {response : CreateDeliveryResponse}
    (h : (execute ar ctx request).Runs v w (.ok response)) :
    w.salesOrders = v.salesOrders ∧ w.boms = v.boms ∧ w.bomItems = v.bomItems ∧
      ∀ l ∈ w.salesOrderLines.rows,
        ∃ l₀ ∈ v.salesOrderLines.rows, LineMoves ar request.lines l₀ l := by
  simp only [execute, Prog.runs_bind_ok, Prog.pure_eq, Prog.runs_ret] at h
  obtain ⟨u, header, hheader, _, _, hloop, rfl, -⟩ := h
  have hdocs := (createHeader_preserves ctx request).runs hheader
  have horders := congrArg Db.salesOrders hdocs
  have hlines := congrArg Db.salesOrderLines hdocs
  have hboms := congrArg Db.boms hdocs
  have hitems := congrArg Db.bomItems hdocs
  obtain ⟨ho, hb, hi, hmoves⟩ := deliverLines_runs hloop
  refine ⟨ho.trans horders, hb.trans hboms, hi.trans hitems, fun l hl => ?_⟩
  obtain ⟨l₀, hl₀, hmove⟩ := hmoves l hl
  have hsame : u.salesOrderLines = v.salesOrderLines := hlines
  exact ⟨l₀, hsame ▸ hl₀, hmove⟩

/-! ### Each request -/

/-- What is released after a release was released before, or is the one. -/
theorem source_of_release {b : Bom} {id : ID} {logs : List AuditLog} (hb : v.boms.get? id = some b)
    {item : ID} {c : Bom}
    (hc : ({ v with
      boms := v.boms.modify id (Bom.setStatus BomStatus.released.toI16) (Bom.setStatus_id _)
      auditLogs := logs } : Db).Source item c) :
    v.Source item c ∨ c = b.setStatus BomStatus.released.toI16 ∧ item = b.itemId ∧ v.Needs b := by
  obtain ⟨hreleased, hneeds⟩ := hc
  obtain ⟨hmem, hcond⟩ := List.mem_filter.mp hreleased
  obtain ⟨hitem, hstatus⟩ := of_decide_eq_true hcond
  obtain ⟨r, hr, rfl⟩ := List.mem_map.mp hmem
  by_cases hk : r.id = id
  · rw [if_pos hk] at hitem hneeds ⊢
    have hrb : r = b := by
      rw [← hk, Table.get?_of_mem hr] at hb
      exact Option.some.inj hb
    subst hrb
    exact .inr ⟨rfl, hitem.symm, hneeds⟩
  · rw [if_neg hk] at hitem hneeds hstatus ⊢
    exact .inl ⟨List.mem_filter.mpr ⟨hr, decide_eq_true ⟨hitem, hstatus⟩⟩, hneeds⟩

/-- Lines stay plain as long as requests keep them so. -/
theorem DemandRequest.keeps_plain {r : DemandRequest} (hv : v.PlainLines) (hkeeps : r.Keeps ar v)
    (h : (r.run ar).Runs v w (.ok ())) : w.PlainLines := by
  cases r with
  | createOrder ctx request =>
    obtain ⟨u, response, hrun, rfl, -⟩ := Prog.runs_bind_ok.mp h
    obtain ⟨row, t, logs, hfree, rfl, hrows⟩ := SalesOrderCreate.execute_runs_ok hrun
    have hhas : ∀ id, (v.salesOrders.insert row).has id =
        (decide (row.id = id) || v.salesOrders.has id) := Table.has_insert _ _
    constructor
    · intro l hl
      show (v.salesOrders.insert row).has l.orderId = true
      rw [hhas]
      rcases hrows l hl with hl | ⟨hid, -⟩
      · simp [hv.orders l hl]
      · simp [hid]
    · intro l hl
      obtain ⟨hl, hopen⟩ := mem_openLines.mp hl
      rcases hrows l hl with hl | ⟨-, hzero, line, hline, hitem⟩
      · exact (hv.plain l (mem_openLines.mpr ⟨hl, hopen⟩)).of_source fun _ hb => hb
      · exact ⟨by rw [hitem]; exact hkeeps line hline, fun _ _ => hzero⟩
  | submitOrder ctx id =>
    obtain ⟨u, response, hrun, rfl, -⟩ := Prog.runs_bind_ok.mp h
    exact hv.of_aside ((changeSalesOrder_preserves ctx id
      (SalesOrderRepository.submit_preserves id)).runs hrun)
  | approveOrder ctx id =>
    obtain ⟨u, response, hrun, rfl, -⟩ := Prog.runs_bind_ok.mp h
    exact hv.of_aside ((changeSalesOrder_preserves ctx id
      (SalesOrderRepository.approve_preserves id)).runs hrun)
  | deliver ctx request =>
    obtain ⟨u, response, hrun, rfl, -⟩ := Prog.runs_bind_ok.mp h
    obtain ⟨ho, hb, hi, hmoves⟩ := SalesDeliveryCreate.execute_runs_ok hrun
    have hsource := source_congr hb hi
    constructor
    · intro l hl
      obtain ⟨l₀, hl₀, -, horder, -⟩ := hmoves l hl
      rw [ho, horder]
      exact hv.orders l₀ hl₀
    · intro l hl
      obtain ⟨hl, hopen⟩ := mem_openLines.mp hl
      obtain ⟨l₀, hl₀, hid, -, hitem, hqty, hmove⟩ := hmoves l hl
      rcases hmove with ⟨-, rfl⟩ | ⟨hne, hdone, hclosed⟩
      · exact (hv.plain l (mem_openLines.mpr ⟨hl₀, hopen⟩)).of_source fun b hb' => hsource ▸ hb'
      · -- the line is touched and stays open: it has no source
        obtain ⟨q, hq⟩ := List.exists_mem_of_ne_nil _ hne
        obtain ⟨line, hline, -⟩ := List.mem_map.mp hq
        obtain ⟨hline, hk⟩ := List.mem_filter.mp hline
        have hget : v.salesOrderLines.get? line.orderLineId = some l₀ := by
          rw [of_decide_eq_true hk]
          exact Table.get?_of_mem hl₀
        have hnone : ∀ b, ¬ w.Source l.itemId b := by
          rw [hsource, hitem]
          rcases hkeeps line hline l₀ hget with hnone | hle
          · exact hnone
          · have hlt := of_decide_eq_false (hclosed.symm.trans hopen)
            rw [← hdone] at hle
            omega
        exact ⟨fun b _ hb' => absurd hb' (hnone b), fun b hb' => absurd hb' (hnone b)⟩
  | createBom ctx request =>
    obtain ⟨u, response, hrun, rfl, -⟩ := Prog.runs_bind_ok.mp h
    obtain ⟨id, code, t, logs, hfree, rfl, htally⟩ := BomCreate.execute_runs_ok hrun
    refine hv.of_source rfl (fun _ hid => hid) fun item b hb => ?_
    obtain ⟨hreleased, material, hneeds⟩ := hb
    obtain ⟨hmem, hcond⟩ := List.mem_filter.mp hreleased
    obtain ⟨hitem, hstatus⟩ := of_decide_eq_true hcond
    have hmem : b ∈ v.boms.rows := by
      rcases Table.mem_rows_insert hmem with hmem | rfl
      · exact hmem
      · cases hstatus
    have hne : b.id ≠ id := Table.get?_eq_none.mp hfree b hmem
    refine ⟨List.mem_filter.mpr ⟨hmem, hcond⟩, material, ?_⟩
    have hsame := htally (fun bi => bi.bomId = b.id ∧ bi.itemId = material) BomItem.quantity
      fun bi hbi => by simp [hbi, Ne.symm hne]
    rw [Db.perUnit, ← hsame]
    exact hneeds
  | releaseBom ctx id =>
    obtain ⟨u, response, hrun, rfl, -⟩ := Prog.runs_bind_ok.mp h
    obtain ⟨b, logs, hb, -, rfl⟩ := BomRelease.execute_runs_ok hrun
    refine ⟨hv.orders, fun l hl => ?_⟩
    have hplain := hv.plain l hl
    by_cases hcase : v.Needs b ∧ l.itemId = b.itemId
    · obtain ⟨hnone, hzero⟩ := hkeeps b hb hcase.1 l hl hcase.2
      refine ⟨fun c c' hc hc' => ?_, fun _ _ => hzero⟩
      rcases source_of_release hb hc with hc | ⟨rfl, -⟩
      · exact absurd hc (hnone c)
      · rcases source_of_release hb hc' with hc' | ⟨rfl, -⟩
        · exact absurd hc' (hnone c')
        · rfl
    · refine hplain.of_source fun c hc => ?_
      rcases source_of_release hb hc with hc | ⟨-, hitem, hneeds⟩
      · exact hc
      · exact absurd ⟨hneeds, hitem⟩ hcase
  | other program =>
    have hsame := program.keeps.runs h
    exact hv.congr (congrArg (fun p => p.2.1) hsame) (congrArg (fun p => p.1) hsame)
      (congrArg (fun p => p.2.2.1) hsame) (congrArg (fun p => p.2.2.2) hsame)

end Steps

/-- Before the first release and the first delivery every request keeps lines plain. -/
theorem DemandRequest.keeps_of_unreleased {ar : Arith} {v : Db}
    (hboms : ∀ b ∈ v.boms.rows, b.status ≠ 1)
    (hlines : ∀ l ∈ v.salesOrderLines.rows, l.deliveredQty = 0) (r : DemandRequest) :
    r.Keeps ar v := by
  have hnone : ∀ item b, ¬ v.Source item b := by
    rintro item b ⟨hreleased, -⟩
    obtain ⟨hb, hcond⟩ := List.mem_filter.mp hreleased
    exact hboms b hb (of_decide_eq_true hcond).2
  cases r with
  | createOrder ctx request => exact fun line _ b _ hb => absurd hb (hnone _ b)
  | deliver ctx request => exact fun _ _ l _ => .inl (hnone l.itemId)
  | releaseBom ctx id =>
    exact fun _ _ _ l hl _ => ⟨hnone l.itemId, hlines l (mem_openLines.mp hl).1⟩
  | submitOrder | approveOrder | createBom | other => trivial

/-- Requests that keep lines plain keep the demand right. -/
theorem demand_met (ar : Arith) {xs : List (Service Db AppError Unit DemandRequest)} {w : Db}
    (h : InOrder (DemandRequest.run ar) Db.empty xs w)
    (hkeeps : ∀ x ∈ xs, x.result = .ok () → x.request.Keeps ar x.found) : DemandMet ar w := by
  have hrun : ∀ {v : Db}, v.PlainLines → InOrder (DemandRequest.run ar) v xs w →
      w.PlainLines := by
    clear h
    induction xs with
    | nil =>
      rintro v hv rfl
      exact hv
    | cons x xs ih =>
      rintro v hv ⟨rfl, hx, hrest⟩
      refine ih (fun y hy => hkeeps y (List.mem_cons_of_mem _ hy)) ?_ hrest
      cases hr : x.result with
      | error e =>
        rw [hr] at hx
        rw [hx.of_error]
        exact hv
      | ok u =>
        rw [hr] at hx
        exact DemandRequest.keeps_plain hv (hkeeps x List.mem_cons_self hr)
          (Prog.transacts_ok.mp hx)
  have hempty : Db.empty.PlainLines := ⟨fun _ hl => (by cases hl), fun _ hl => (by cases hl)⟩
  have hw := hrun hempty h
  exact demandMet_of_plain ar hw.orders hw.plain

/-- A new item. -/
def addItem (row : ItemRow) : DemandBystander where
  run := insertRow .items row.id (fun db => db.items.has row.id) fun db =>
    { db with items := db.items.insert row }
  keeps := Prog.preserves_insert (by intro _; rfl)

/-- An order for five pieces of item 1, and a BOM of item 1 that needs one of item 2 a piece. -/
def fivePieces : SalesOrderCreate.CreateSalesOrderRequest where
  customerId := 1
  lines := [{ itemId := 1, quantity := 5, unitPrice := 10 }]

def onePerPiece : BomCreate.CreateBomRequest where
  name := "toy car"
  itemId := 1
  totalQty := none
  remark := none
  items := [{ itemId := 2, quantity := 1 }]

def material : ItemRow :=
  ⟨2, "RAW001", "Plastic", none, 1, "kg", none, none, true, 0, 0, 1⟩

/-- One order and one released BOM. -/
def orderWithBom : List DemandRequest :=
  [.other (addItem material), .createOrder ⟨1, none, none⟩ fivePieces,
    .createBom ⟨1, none, none⟩ onePerPiece, .releaseBom ⟨1, none, none⟩ 201]

theorem demand_met_orderWithBom : ∃ w,
    (∃ xs, InOrder (DemandRequest.run .i64) Db.empty xs w ∧ xs.map (·.request) = orderWithBom) ∧
      DemandMet .i64 w := by
  have hmet := demand_met .i64
    (inOrder_serveInOrder (DemandRequest.run .i64) (numbered 1) Db.empty orderWithBom) ?_
  · exact ⟨_, ⟨_, inOrder_serveInOrder (DemandRequest.run .i64) (numbered 1) Db.empty orderWithBom,
      rfl⟩, hmet⟩
  · have hfound : ∀ x ∈ (serveInOrder (DemandRequest.run .i64) (numbered 1) Db.empty
        orderWithBom).1, (∀ b ∈ x.found.boms.rows, b.status ≠ 1) ∧
          ∀ l ∈ x.found.salesOrderLines.rows, l.deliveredQty = 0 := by decide +kernel
    exact fun x hx _ => DemandRequest.keeps_of_unreleased (hfound x hx).1 (hfound x hx).2 _

/-- One open line, whose demand is told otherwise than by any released BOM of its item. -/
theorem not_demandMet {ar : Arith} {w : Db} {l : SalesOrderLine} {x : PlanningPort.MrpItem} {n : ℤ}
    (hopen : w.openLines = [l]) (hreleased : w.released l.itemId ≠ [])
    (hx : x ∈ PlanningPort.mrpCalculate ar w)
    (hunit : ∀ b ∈ w.released l.itemId, w.perUnit b x.itemId = n)
    (hne : x.grossDemand ≠ (l.quantity - l.deliveredQty) * n) : ¬ DemandMet ar w := by
  rintro ⟨pick, hpick, hlisted, -⟩
  apply hne
  rw [hlisted x hx, Db.undelivered, hopen, List.map_singleton, List.sum_singleton, Db.pickedQty]
  have hp := hpick l.itemId
  cases hb : pick l.itemId with
  | none =>
    rw [hb] at hp
    exact absurd hp hreleased
  | some b =>
    rw [hb] at hp
    exact congrArg _ (hunit b hp)

def addStock (row : Inventory) : DemandBystander where
  run := Prog.insert [.inventory row.itemId row.warehouseId] (fun _ => none) fun db =>
    { db with inventories := db.inventories.insert row }
  keeps := Prog.preserves_insert (by intro _; rfl)

/-- A second version of the BOM. -/
def secondBom : List DemandRequest :=
  orderWithBom ++ [.createBom ⟨1, none, none⟩ onePerPiece, .releaseBom ⟨1, none, none⟩ 401]

/-- Two of the five pieces. -/
def twoDelivered : List DemandRequest :=
  orderWithBom ++ [.other (addStock ⟨1, 1, 1, 9, 0, 0⟩), .submitOrder ⟨1, none, none⟩ 101,
    .approveOrder ⟨1, none, none⟩ 101, .approveOrder ⟨1, none, none⟩ 101,
    .deliver ⟨1, none, none⟩ {
      orderId := 101, remark := none
      lines := [{ orderLineId := 104, itemId := 1, warehouseId := 1, quantity := 2
                  batchNumber := none }] }]

/-- With a second version released the demand of five is told as ten, and with two delivered it is
still told as five. -/
theorem demand_not_met :
    (∃ w, (∃ xs, InOrder (DemandRequest.run .i64) Db.empty xs w ∧
        xs.map (·.request) = secondBom ∧ ∀ x ∈ xs, x.result = .ok ()) ∧
      (PlanningPort.mrpCalculate .i64 w).map (fun x => (x.itemId, x.grossDemand)) = [(2, 10)] ∧
      ¬ DemandMet .i64 w) ∧
    ∃ w, (∃ xs, InOrder (DemandRequest.run .i64) Db.empty xs w ∧
        xs.map (·.request) = twoDelivered ∧ ∀ x ∈ xs, x.result = .ok ()) ∧
      (PlanningPort.mrpCalculate .i64 w).map (fun x => (x.itemId, x.grossDemand)) = [(2, 5)] ∧
      ¬ DemandMet .i64 w := by
  constructor
  · refine ⟨_, ⟨_, inOrder_serveInOrder (DemandRequest.run .i64) (numbered 1) Db.empty secondBom,
      rfl, ?_⟩, ?_, ?_⟩
    · decide +kernel
    · decide +kernel
    · exact not_demandMet (l := ⟨104, 101, 1, 5, 0, false, 1, 10, 50⟩) (n := 1)
        (x := ⟨2, "RAW001", "Plastic", 10, 0, 0, 10, 0, 10⟩) (by decide +kernel)
        (by decide +kernel) (by decide +kernel) (by decide +kernel) (by decide +kernel)
  · refine ⟨_, ⟨_, inOrder_serveInOrder (DemandRequest.run .i64) (numbered 1) Db.empty
      twoDelivered, rfl, ?_⟩, ?_, ?_⟩
    · decide +kernel
    · decide +kernel
    · exact not_demandMet (l := ⟨104, 101, 1, 5, 2, false, 1, 10, 50⟩) (n := 1)
        (x := ⟨2, "RAW001", "Plastic", 5, 0, 0, 5, 0, 5⟩) (by decide +kernel)
        (by decide +kernel) (by decide +kernel) (by decide +kernel) (by decide +kernel)

end Slab
