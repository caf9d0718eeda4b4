import Slab.Txn.Chain
import Slab.Txn.Watch
import Slab.Erp.Items
import Slab.Erp.WorkOrders

/-!
# The trail of an entity

A handler that changes an entity records it as it was before and as it is after. A pick and a
completion lock the work order before they read it; a release, a report of an operation and a
patch of an item do not, and the first two of them open no transaction, so that the change is
committed before it is recorded. Where the row that is written is the row that was read, and
nobody comes between the change and its record, the records form a chain that ends with the row.

## Main definitions

- `TrackedRequest` — a request to one of the handlers
- `Trail` — the records of an entity since a given time form a chain up to its row
- `TrackedRequest.WritesRead` — the row that is written is the one that was read
- `TrackedRequest.owing` — the row that has been changed but not recorded
- `trailWatch` — what the rows of work orders and items guard
- `RecordsApart` — nobody comes between what is read, changed and recorded

## Main results

- `trails_chain` — along every run in which such rows are left alone
- `trails_break` — runs in which the records are no chain
-/

namespace Slab

open Txn

/-- A request that changes a work order or an item, and records it. -/
inductive TrackedRequest where
  | item (ctx : Operator) (id : ID) (request : UpdateItemRequest)
  | release (ctx : Operator) (id : ID)
  | pick (ctx : Operator) (id : ID) (request : WorkOrderMaterialPick.PickRequest)
  | report (ctx : Operator) (workOrderId operationId : ID)
      (request : WorkOrderOperationReport.ReportRequest)
  | complete (ctx : Operator) (id : ID)
deriving DecidableEq

namespace TrackedRequest

variable (ar : Arith)

def run : TrackedRequest → Handler Unit
  | item ctx id request => do
    let _ ← ItemUpdate.execute ctx id request
    pure ()
  | release ctx id => WorkOrderRelease.execute ctx id
  | pick ctx id request => WorkOrderMaterialPick.execute ar ctx id request
  | report ctx workOrderId operationId request =>
    WorkOrderOperationReport.execute ar ctx workOrderId operationId request
  | complete ctx id => WorkOrderComplete.execute ctx id

/-- The handlers that open no transaction. -/
def auto : TrackedRequest → Bool
  | release _ _ | report _ _ _ _ => true
  | item _ _ _ | pick _ _ _ | complete _ _ => false

/-- The row that the first statement has seen is the one that the request is about to change. -/
def WritesRead (r : TrackedRequest) (vs : List Db) (v : Db) : Prop :=
  match r with
  | item _ id _ => vs.length = 2 → (vs.head?.bind fun u => (u.items.get? id).map ItemRow.toItem) =
      (v.items.get? id).map ItemRow.toItem
  | release _ id => vs.length = 1 →
      (vs.head?.bind fun u => u.workOrders.get? id) = v.workOrders.get? id
  | report _ id _ _ => vs.length = 3 →
      (vs.head?.bind fun u => u.workOrders.get? id) = v.workOrders.get? id
  | pick _ _ _ | complete _ _ => True

/-- The work order that a request without a transaction has changed and not yet recorded. -/
def owing (r : TrackedRequest) (vs : List Db) : List Key :=
  match r with
  | release _ id => if vs.length = 2 ∨ vs.length = 3 then [.row .workOrders id] else []
  | report _ id _ _ =>
    -- the sums of the third statement may have been refused by the fourth
    match vs[2]? with
    | some v =>
      let s := WorkOrderOperationReport.sums id v
      if (vs.length = 4 ∨ vs.length = 5) ∧
          WorkOrderOperationReport.outOfRange ar s.1 s.2 = none then
        [.row .workOrders id]
      else []
    | none => []
  | item _ _ _ | pick _ _ _ | complete _ _ => []

end TrackedRequest

/-! ## Trails -/

/-- The row of an entity whose changes are recorded. -/
inductive Tracked where
  | workOrder (row : WorkOrder)
  | item (row : ItemRow)
deriving DecidableEq

/-- The row as it is recorded. -/
def Tracked.snapshot : Tracked → Snapshot
  | workOrder row => .workOrder row
  | item row => .item row.toItem

def Tracked.mapOrder (f : WorkOrder → WorkOrder) : Tracked → Tracked
  | workOrder row => workOrder (f row)
  | t => t

def Tracked.mapItem (f : ItemRow → ItemRow) : Tracked → Tracked
  | item row => item (f row)
  | t => t

/-- The name and the identifier under which changes of the row are recorded. -/
def auditedAs : Key → Option (String × ID)
  | .row .workOrders id => some ("work_order", id)
  | .row .items id => some ("item", id)
  | _ => none

namespace Db

def tracked? (k : Key) (db : Db) : Option Tracked :=
  match k with
  | .row .workOrders id => (db.workOrders.get? id).map .workOrder
  | .row .items id => (db.items.get? id).map .item
  | _ => none

/-- What the rows of `audit_logs` say of the updates of the entity, in the order of their
commits. -/
def updatesOf (k : Key) (db : Db) : List AuditLog :=
  db.auditLogs.filter fun log =>
    auditedAs k = some (log.entity, log.entityId) && log.action = AuditAction.updated.toI16

end Db

/-- What a row guards: itself, and the records of its updates. -/
structure TrailPart where
  row : Option Tracked
  updates : List AuditLog

/-- The value that a recorded row has. -/
def TrailPart.value (p : TrailPart) : Option Snapshot := p.row.map Tracked.snapshot

def Db.trailPart (k : Key) (db : Db) : TrailPart := ⟨db.tracked? k, db.updatesOf k⟩

/-- The records of the part go on from those of `p₀` as a chain: the first one starts from the
value of `p₀`, and each one starts where the one before it stopped. -/
def Continues (p₀ : TrailPart) (updates new : List AuditLog) : Prop :=
  updates = p₀.updates ++ new ∧ Linked AuditLog.before AuditLog.after p₀.value new

/-- The records go on from those of `p₀` as a chain that stops at the present value. -/
def Trail (p₀ p : TrailPart) : Prop :=
  ∃ new, Continues p₀ p.updates new ∧ stopOf AuditLog.after p₀.value new = p.value

/-- The records are a chain, as far as they go back, and the last one stops at the present
value. -/
def Chained (p : TrailPart) : Prop :=
  ∃ first, Linked AuditLog.before AuditLog.after first p.updates ∧
    stopOf AuditLog.after first p.updates = p.value

theorem Trail.refl (p : TrailPart) : Trail p p :=
  ⟨[], ⟨(List.append_nil _).symm, trivial⟩, rfl⟩

/-- One more record, which starts at the present value. -/
theorem Continues.snoc {p₀ : TrailPart} {updates new : List AuditLog} {log : AuditLog}
    (h : Continues p₀ updates new) (hstart : log.before = stopOf AuditLog.after p₀.value new) :
    Continues p₀ (updates ++ [log]) (new ++ [log]) := by
  obtain ⟨rfl, hlinked⟩ := h
  exact ⟨List.append_assoc _ _ _, linked_append_singleton.mpr ⟨hlinked, hstart⟩⟩

theorem Trail.snoc {p₀ p p' : TrailPart} {log : AuditLog} (h : Trail p₀ p)
    (hupdates : p'.updates = p.updates ++ [log]) (hbefore : log.before = p.value)
    (hafter : log.after = p'.value) : Trail p₀ p' := by
  obtain ⟨new, hnew, hstop⟩ := h
  refine ⟨new ++ [log], ?_, ?_⟩
  · rw [hupdates]
    exact hnew.snoc (hbefore.trans hstop.symm)
  · simp [stopOf, hafter]

/-- A trail that goes on from a chain is part of a longer one. -/
theorem Trail.chained {p₀ p : TrailPart} (h : Trail p₀ p) (h₀ : Chained p₀) : Chained p := by
  obtain ⟨new, ⟨hnew, hlinked⟩, hstop⟩ := h
  obtain ⟨first, hlinked₀, hstop₀⟩ := h₀
  refine ⟨first, ?_, ?_⟩
  · rw [hnew, linked_append, hstop₀]
    exact ⟨hlinked₀, hlinked⟩
  · rw [hnew, stopOf_append, hstop₀]
    exact hstop

/-! ## What the rows guard -/

theorem auditedAs_inj {j k : Key} {entity : String × ID} (hj : auditedAs j = some entity)
    (hk : auditedAs k = some entity) : j = k := by
  have hname : ∀ {id id' : ID}, ("work_order", id) ≠ ("item", id') := by
    intro id id' h
    exact absurd (Prod.mk.inj h).1 (by decide)
  have hcases : ∀ {i : Key}, auditedAs i = some entity →
      (∃ id, i = .row .workOrders id ∧ ("work_order", id) = entity) ∨
        ∃ id, i = .row .items id ∧ ("item", id) = entity := by
    intro i h
    rcases i with _ | ⟨tn, id⟩
    · cases h
    · cases tn with
      | workOrders => exact .inl ⟨id, rfl, Option.some.inj h⟩
      | items => exact .inr ⟨id, rfl, Option.some.inj h⟩
      | _ => cases h
  rcases hcases hj with ⟨id, rfl, hid⟩ | ⟨id, rfl, hid⟩ <;>
  rcases hcases hk with ⟨id', rfl, hid'⟩ | ⟨id', rfl, hid'⟩
  · rw [(Prod.mk.inj (hid.trans hid'.symm)).2]
  · exact absurd (hid.trans hid'.symm) hname
  · exact absurd (hid'.trans hid.symm) hname
  · rw [(Prod.mk.inj (hid.trans hid'.symm)).2]

/-- The records go on from those of `p₀` as a chain. -/
def Going (p₀ p : TrailPart) : Prop := ∃ new, Continues p₀ p.updates new

/-- The part becomes another one: its records go on to be a chain, and a row does not vanish. -/
structure Develops (p₀ p p' : TrailPart) : Prop where
  going : Going p₀ p → Going p₀ p'
  present : p.row.isSome → p'.row.isSome

theorem TrackedRequest.owing_nil (ar : Arith) (r : TrackedRequest) : r.owing ar [] = [] := by
  cases r <;> rfl

/-- A row guards its trail since `db`, up to its present value unless a change is yet to be
recorded. -/
def trailWatch (ar : Arith) (db : Db) : Watch Db Key TrailPart TrackedRequest Answer where
  proj := Db.trailPart
  about _ _ := false
  inv k p _ := Trail (db.trailPart k) p
  moves k s t := Develops (db.trailPart k) s.1 t.1
  moves_refl _ _ := ⟨fun h => h, fun h => h⟩
  moves_trans _ _ _ _ h h' := ⟨fun h₀ => h'.going (h.going h₀), fun h₀ => h'.present (h.present h₀)⟩
  pre _ _ _ := True
  assumes _ _ _ _ := True
  auto := TrackedRequest.auto
  claims := TrackedRequest.owing ar
  expects := TrackedRequest.WritesRead
  claims_nil := TrackedRequest.owing_nil ar

namespace trailWatch

variable {ar : Arith} {db v v' : Db} {tr tr' : List (Event TrackedRequest Answer)}
  {own : List Key} {k : Key}

/-- Whatever leaves the rows and the records alone changes no part. -/
theorem trailPart_congr {x y : Db} (horders : x.workOrders = y.workOrders)
    (hitems : x.items = y.items) (hlogs : x.auditLogs = y.auditLogs) (k : Key) :
    x.trailPart k = y.trailPart k := by
  unfold Db.trailPart Db.tracked? Db.updatesOf
  rw [horders, hitems, hlogs]

theorem neutral {α : Type} {p : Handler α}
    (h : p.Preserves fun v => (v.workOrders, v.items, v.auditLogs)) :
    (trailWatch ar db).toGuard.Neutral p :=
  .of_preserves h (fun k _ _ hxy => trailPart_congr (Prod.mk.inj hxy).1
    (Prod.mk.inj (Prod.mk.inj hxy).2).1 (Prod.mk.inj (Prod.mk.inj hxy).2).2 k) (fun _ _ _ => rfl)
    fun _ _ _ => trivial

/-- A locked row may be written. -/
theorem row_writes {w : Db → Db} (hown : k ∈ own) (F : Tracked → Tracked)
    (hself : ∀ x : Db, (w x).tracked? k = (x.tracked? k).map F)
    (hothers : ∀ (x : Db) j, j ≠ k → (w x).tracked? j = x.tracked? j)
    (hlogs : ∀ x : Db, (w x).auditLogs = x.auditLogs) :
    (trailWatch ar db).Writes own v tr w := by
  have hupdates : ∀ (x : Db) j, (w x).updatesOf j = x.updatesOf j := by
    intro x j
    unfold Db.updatesOf
    rw [hlogs]
  refine ⟨.of_part hown (fun p => ⟨p.row.map F, p.updates⟩) (fun x => ?_) (fun j hj x => ?_),
    fun j _ => ⟨fun h => ?_, fun h => ?_⟩⟩
  · change (⟨_, _⟩ : TrailPart) = ⟨_, _⟩
    rw [hself, hupdates]
    rfl
  · change (⟨_, _⟩ : TrailPart) = ⟨_, _⟩
    rw [hothers x j hj, hupdates]
  · change ∃ new, Continues _ ((w v).updatesOf j) new
    rw [hupdates]
    exact h
  · change ((w v).tracked? j).isSome = true
    by_cases hj : j = k
    · rw [hj, hself, Option.isSome_map, ← hj]
      exact h
    · rw [hothers v j hj]
      exact h

/-- One more record of the entity. -/
def addLog (log : AuditLog) (x : Db) : Db := { x with auditLogs := x.auditLogs ++ [log] }

theorem updatesOf_addLog_self {log : AuditLog} (hk : auditedAs k = some (log.entity, log.entityId))
    (haction : log.action = AuditAction.updated.toI16) (x : Db) :
    (addLog log x).updatesOf k = x.updatesOf k ++ [log] := by
  simp [Db.updatesOf, addLog, hk, haction]

theorem updatesOf_addLog_of_ne {log : AuditLog} {j : Key}
    (hk : auditedAs k = some (log.entity, log.entityId)) (hj : j ≠ k) (x : Db) :
    (addLog log x).updatesOf j = x.updatesOf j := by
  have hne : auditedAs j ≠ some (log.entity, log.entityId) := fun h => hj (auditedAs_inj h hk)
  simp [Db.updatesOf, addLog, hne]

theorem trailPart_addLog_of_ne {log : AuditLog} {j : Key}
    (hk : auditedAs k = some (log.entity, log.entityId)) (hj : j ≠ k) (x : Db) :
    (addLog log x).trailPart j = x.trailPart j := by
  unfold Db.trailPart
  rw [updatesOf_addLog_of_ne hk hj]
  rfl

/-- A change of a row that is locked, or claimed, is recorded. -/
theorem addLog_writes {log : AuditLog} (hown : k ∈ own)
    (hk : auditedAs k = some (log.entity, log.entityId))
    (haction : log.action = AuditAction.updated.toI16) {p : TrailPart}
    (htrail : Trail (db.trailPart k) p) (hupdates : v.updatesOf k = p.updates)
    (hbefore : log.before = p.value) : (trailWatch ar db).Writes own v tr (addLog log) := by
  refine ⟨.of_part hown (fun p => ⟨p.row, p.updates ++ [log]⟩) (fun x => ?_)
    (fun j hj x => trailPart_addLog_of_ne hk hj x), fun j _ => ⟨fun h => ?_, fun h => h⟩⟩
  · change (⟨_, _⟩ : TrailPart) = ⟨_, _⟩
    rw [updatesOf_addLog_self hk haction]
    rfl
  · by_cases hj : j = k
    · subst hj
      obtain ⟨new, hnew, hstop⟩ := htrail
      refine ⟨new ++ [log], ?_⟩
      change Continues _ ((addLog log v).updatesOf j) _
      rw [updatesOf_addLog_self hk haction, hupdates]
      exact hnew.snoc (hbefore.trans hstop.symm)
    · change Going _ ((addLog log v).trailPart j)
      rw [trailPart_addLog_of_ne hk hj]
      exact h

/-- The rows `own` are as they have to be. -/
def Settled (db : Db) (own : List Key) (v : Db) : Prop :=
  ∀ j ∈ own, Trail (db.trailPart j) (v.trailPart j)

theorem Settled.rely (h : Settled db own v) (hr : (trailWatch ar db).Rely own v tr v' tr') :
    Settled db own v' := fun j hj => hr.holds hj (h j hj)

theorem done {r : TrackedRequest} (h : Settled db own v) : (trailWatch ar db).Done r own v tr :=
  ⟨h, .of_none fun _ => rfl⟩

/-- What a request that has locked, or claims, the row `k` knows: how it stands, and that the
other rows that it owns are as they have to be. -/
structure Knows (db : Db) (k : Key) (p : TrailPart) (own : List Key) (v : Db) : Prop where
  mem : k ∈ own
  part_eq : v.trailPart k = p
  others : ∀ j ∈ own, j ≠ k → Trail (db.trailPart j) (v.trailPart j)

namespace Knows

variable {p : TrailPart}

theorem rely (h : Knows db k p own v) (hr : (trailWatch ar db).Rely own v tr v' tr') :
    Knows db k p own v' :=
  ⟨h.mem, ((hr.kept k h.mem).1).trans h.part_eq, fun j hj hne => hr.holds hj (h.others j hj hne)⟩

theorem tracked?_eq (h : Knows db k p own v) : v.tracked? k = p.row :=
  congrArg TrailPart.row h.part_eq

theorem updatesOf_eq (h : Knows db k p own v) : v.updatesOf k = p.updates :=
  congrArg TrailPart.updates h.part_eq

/-- The row is written. -/
theorem write (h : Knows db k p own v) {w : Db → Db} {row : Option Tracked}
    (hself : (w v).tracked? k = row) (hothers : ∀ j, j ≠ k → (w v).tracked? j = v.tracked? j)
    (hlogs : (w v).auditLogs = v.auditLogs) : Knows db k ⟨row, p.updates⟩ own (w v) := by
  have hupdates : ∀ j, (w v).updatesOf j = v.updatesOf j := by
    intro j
    unfold Db.updatesOf
    rw [hlogs]
  refine ⟨h.mem, ?_, fun j hj hne => ?_⟩
  · rw [Db.trailPart, hself, hupdates, h.updatesOf_eq]
  · have hsame : (w v).trailPart j = v.trailPart j := by
      unfold Db.trailPart
      rw [hothers j hne, hupdates]
    rw [hsame]
    exact h.others j hj hne

/-- Its change is recorded. -/
theorem record {t t' : Tracked} {updates : List AuditLog} (log : AuditLog)
    (h : Knows db k ⟨some t', updates⟩ own v) (htrail : Trail (db.trailPart k) ⟨some t, updates⟩)
    (hk : auditedAs k = some (log.entity, log.entityId))
    (haction : log.action = AuditAction.updated.toI16) (hbefore : log.before = some t.snapshot)
    (hafter : log.after = some t'.snapshot) : Settled db own (addLog log v) := by
  intro j hj
  by_cases hne : j = k
  · subst hne
    refine htrail.snoc ?_ hbefore ?_
    · exact (updatesOf_addLog_self hk haction v).trans (congrArg (· ++ [log]) h.updatesOf_eq)
    · exact hafter.trans (congrArg (Option.map Tracked.snapshot) h.tracked?_eq).symm
  · rw [trailPart_addLog_of_ne hk hne]
    exact h.others j hj hne

/-- More rows are locked. -/
theorem grow (h : Knows db k p own v) {keys : List Key}
    (hkeys : ∀ j ∈ keys, j ∉ own → (trailWatch ar db).Holds j v tr) :
    Knows db k p (own ++ keys) v := by
  refine ⟨List.mem_append_left _ h.mem, h.part_eq, fun j hj hne => ?_⟩
  by_cases hin : j ∈ own
  · exact h.others j hin hne
  · exact hkeys j ((List.mem_append.mp hj).resolve_left hin) hin

theorem kept {own' : List Key} (h : Knows db k p own v)
    (hkept : (trailWatch ar db).Kept own v tr own' v' tr') : Knows db k p own' v' := by
  refine ⟨hkept.sub h.mem, ?_, fun j hj hne => ?_⟩
  · exact (congrArg Prod.fst (hkept.state_eq k h.mem)).trans h.part_eq
  · by_cases hin : j ∈ own
    · have hpart : v'.trailPart j = v.trailPart j := congrArg Prod.fst (hkept.state_eq j hin)
      rw [hpart]
      exact h.others j hin hne
    · exact hkept.rest j hj hin

end Knows

/-! ## Each request among others -/

/-- What was changed is recorded, and every row that the request owns is as it has to be. -/
theorem record_safe {r : TrackedRequest} {entity : String} {id : ID} (t t' : Tracked)
    {updates : List AuditLog} {ctx : Operator} {vs : List Db}
    (hk : auditedAs k = some (entity, id)) (h : Knows db k ⟨some t', updates⟩ own v)
    (htrail : Trail (db.trailPart k) ⟨some t, updates⟩)
    (hkeeps : ∀ u, (trailWatch ar db).keeps r (vs ++ [u]) own ⊆ own) :
    (trailWatch ar db).Safe r (fun _ _ own v _ => Settled db own v)
      (AuditService.recordUpdated entity id ctx t.snapshot t'.snapshot) vs own v tr := by
  refine Watch.Safe.ask_bind fun v₁ tr₁ hr₁ => ⟨trivial, fun logId =>
    ⟨Guard.Hears.of_none fun _ => rfl, ?_⟩⟩
  rw [← Prog.bind_ret (Prog.insert _ _ _)]
  refine Watch.Safe.writeIf_bind fun v₂ tr₂ hr₂ _ _ => ⟨fun _ he => (by cases he), fun _ => ?_⟩
  have h₂ : Knows db k ⟨some t', updates⟩ own v₂ := (h.rely hr₁).rely hr₂
  rw [List.append_nil]
  have hsettled := h₂.record ⟨logId, ctx.operatorId, AuditAction.updated.toI16, entity, id,
    some t.snapshot, some t'.snapshot, ctx.ip, ctx.userAgent⟩ htrail hk rfl rfl rfl
  exact ⟨addLog_writes h.mem hk rfl htrail h₂.updatesOf_eq rfl, ⟨hkeeps v₂, fun j hj _ =>
    hsettled j hj⟩, Watch.Safe.ret fun v₃ tr₃ hr₃ =>
      Settled.rely (fun j hj => hsettled j (hkeeps v₂ hj)) hr₃⟩

/-- Rows that stay owned are given up by no statement. -/
theorem settles_of_keeps {r : TrackedRequest} {vs : List Db}
    (h : (trailWatch ar db).keeps r vs own = own) : (trailWatch ar db).Settles r vs own v tr := by
  refine ⟨?_, fun j hj hnot => ?_⟩
  · rw [h]
    exact List.Subset.refl own
  · rw [h] at hnot
    exact absurd hj hnot

/-- The same for a work order that is read back. -/
theorem recordPick_safe {r : TrackedRequest} {id : ID} {before after : WorkOrder}
    {updates : List AuditLog} {ctx : Operator} {vs : List Db}
    (h : Knows db (.row .workOrders id) ⟨some (.workOrder after), updates⟩ own v)
    (htrail : Trail (db.trailPart (.row .workOrders id)) ⟨some (.workOrder before), updates⟩)
    (hmid : ∀ u, (trailWatch ar db).keeps r (vs ++ [u]) own = own)
    (hlast : ∀ u u', (trailWatch ar db).keeps r (vs ++ [u] ++ [u']) own ⊆ own) :
    (trailWatch ar db).Safe r (fun _ _ own v _ => Settled db own v)
      (WorkOrderMaterialPick.recordPick ctx id before) vs own v tr := by
  refine Watch.Safe.select_bind fun v₁ tr₁ hr₁ _ => ⟨settles_of_keeps (hmid v₁), ?_⟩
  rw [hmid]
  have h₁ := h.rely hr₁
  refine Watch.Safe.orFail_bind fun row hrow => ?_
  -- the row that is read back is the one that was written
  obtain rfl : row = after := by
    have hread := h₁.tracked?_eq
    change (v₁.workOrders.get? id).map Tracked.workOrder = _ at hread
    rw [hrow] at hread
    exact Tracked.workOrder.inj (Option.some.inj hread)
  exact record_safe (.workOrder before) (.workOrder row) rfl h₁ htrail (hlast v₁)

/-- At the end of a transaction. -/
theorem recordPick_txn {r : TrackedRequest} (hauto : r.auto = false) {id : ID}
    {before after : WorkOrder} {updates : List AuditLog} {ctx : Operator} {vs : List Db}
    (h : Knows db (.row .workOrders id) ⟨some (.workOrder after), updates⟩ own v)
    (htrail : Trail (db.trailPart (.row .workOrders id)) ⟨some (.workOrder before), updates⟩) :
    (trailWatch ar db).Safe r (fun _ _ => (trailWatch ar db).Done r)
      (WorkOrderMaterialPick.recordPick ctx id before) vs own v tr := by
  have hkeeps : ∀ vs, (trailWatch ar db).keeps r vs own = own := fun vs =>
    Watch.keeps_txn hauto vs own
  refine Watch.Safe.mono (recordPick_safe h htrail (fun u => hkeeps _) fun u u' => ?_)
    fun _ _ _ _ _ h => done h
  rw [hkeeps]
  exact List.Subset.refl own

section WorkOrders

variable {id : ID} {f : WorkOrder → WorkOrder} {hf : ∀ row, (f row).id = row.id}

/-- A work order is written. -/
def modifyOrder (id : ID) (f : WorkOrder → WorkOrder) (hf : ∀ row, (f row).id = row.id)
    (x : Db) : Db := { x with workOrders := x.workOrders.modify id f hf }

theorem tracked?_modifyOrder_self : (modifyOrder id f hf v).tracked? (.row .workOrders id) =
    (v.tracked? (.row .workOrders id)).map (Tracked.mapOrder f) := by
  simp only [Db.tracked?, modifyOrder, Table.get?_modify_self, Option.map_map]
  rfl

theorem tracked?_modifyOrder_of_ne {j : Key} (h : j ≠ .row .workOrders id) :
    (modifyOrder id f hf v).tracked? j = v.tracked? j := by
  rcases j with _ | ⟨tn, j⟩
  · rfl
  · cases tn with
    | workOrders =>
      have hj : j ≠ id := by
        rintro rfl
        exact h rfl
      simp only [Db.tracked?, modifyOrder, Table.get?_modify_of_ne hj]
    | _ => rfl

/-- A locked work order may be written. -/
theorem order_writes (hown : .row .workOrders id ∈ own) :
    (trailWatch ar db).Writes own v tr (modifyOrder id f hf) :=
  row_writes hown (Tracked.mapOrder f) (fun _ => tracked?_modifyOrder_self)
    (fun _ _ hj => tracked?_modifyOrder_of_ne hj) fun _ => rfl

theorem Knows.writeOrder {row : WorkOrder} {updates : List AuditLog}
    (h : Knows db (.row .workOrders id) ⟨some (.workOrder row), updates⟩ own v) :
    Knows db (.row .workOrders id) ⟨some (.workOrder (f row)), updates⟩ own
      (modifyOrder id f hf v) := by
  refine h.write ?_ (fun _ hj => tracked?_modifyOrder_of_ne hj) rfl
  exact tracked?_modifyOrder_self.trans (congrArg (Option.map _) h.tracked?_eq)

theorem trailPart_of_order {row : WorkOrder} (hrow : v.workOrders.get? id = some row) :
    v.trailPart (.row .workOrders id) =
      ⟨some (.workOrder row), v.updatesOf (.row .workOrders id)⟩ := by
  rw [Db.trailPart, Db.tracked?, hrow]
  rfl

/-- What a request knows that has locked a work order, and nothing else. -/
theorem Knows.of_order {row : WorkOrder} (hrow : v.workOrders.get? id = some row) :
    Knows db (.row .workOrders id) ⟨some (.workOrder row), v.updatesOf (.row .workOrders id)⟩
      [.row .workOrders id] v :=
  ⟨List.mem_cons_self, trailPart_of_order hrow,
    fun _ hj hne => absurd (List.mem_singleton.mp hj) hne⟩

/-- The trail of a work order that is there. -/
theorem trail_of_order {row : WorkOrder} (hrow : v.workOrders.get? id = some row)
    (h : (trailWatch ar db).Holds (.row .workOrders id) v tr) :
    Trail (db.trailPart (.row .workOrders id))
      ⟨some (.workOrder row), v.updatesOf (.row .workOrders id)⟩ := by
  rw [← trailPart_of_order hrow]
  exact h

theorem lockRow_order {row : WorkOrder} (hrow : v.workOrders.get? id = some row) :
    lockRow .workOrders id (v.workOrders.has id) = [.row .workOrders id] := by
  rw [Table.has_iff.mpr ⟨row, hrow⟩]
  rfl

end WorkOrders

theorem release_safe (ctx : Operator) (id : ID) :
    (trailWatch ar db).Safe (.release ctx id)
      (fun _ _ => (trailWatch ar db).Done (.release ctx id))
      (WorkOrderRelease.execute ctx id) [] [] v tr := by
  refine Watch.Safe.select_bind fun v₁ tr₁ _ _ =>
    ⟨.of_free rfl fun _ hk => (by cases hk), ?_⟩
  refine Watch.Safe.orFail_bind fun before hbefore => Watch.Safe.ensure_bind fun _ => ?_
  refine Watch.Safe.update_bind fun v₂ tr₂ _ hfree hread => ?_
  -- the order that is written is the one that was read
  have hrow : v₂.workOrders.get? id = some before := (hread rfl).symm.trans hbefore
  have hkeys := lockRow_order hrow
  have htrail := trail_of_order hrow (hfree (.row .workOrders id)
    (by rw [hkeys]; exact List.mem_cons_self) List.not_mem_nil)
  have hown : (trailWatch ar db).keeps (.release ctx id) ([] ++ [v₁]) [] ++
      lockRow .workOrders id (v₂.workOrders.has id) = [.row .workOrders id] := hkeys
  rw [hown]
  refine ⟨order_writes List.mem_cons_self, settles_of_keeps rfl, ?_⟩
  refine Watch.Safe.mono (recordPick_safe (Knows.of_order hrow).writeOrder htrail (fun _ => rfl)
    fun _ _ => List.nil_subset _) fun _ _ _ _ _ h => done h

theorem owing_report {ctx : Operator} {id operationId : ID}
    {request : WorkOrderOperationReport.ReportRequest} {vs : List Db} {u : Db}
    (h : vs[2]? = some u) : TrackedRequest.owing ar (.report ctx id operationId request) vs =
      if (vs.length = 4 ∨ vs.length = 5) ∧ WorkOrderOperationReport.outOfRange ar
        (WorkOrderOperationReport.sums id u).1 (WorkOrderOperationReport.sums id u).2 = none then
          [.row .workOrders id]
      else [] := by
  simp only [TrackedRequest.owing, h]

theorem report_safe (ctx : Operator) (id operationId : ID)
    (request : WorkOrderOperationReport.ReportRequest) :
    (trailWatch ar db).Safe (.report ctx id operationId request)
      (fun _ _ => (trailWatch ar db).Done (.report ctx id operationId request))
      (WorkOrderOperationReport.execute ar ctx id operationId request) [] [] v tr := by
  have hkeeps : ∀ vs own, (trailWatch ar db).keeps (.report ctx id operationId request) vs own =
      TrackedRequest.owing ar (.report ctx id operationId request) vs := Watch.keeps_auto rfl
  have hsame : ∀ (x : Db) k, (WorkOrderOperationReport.writeOperation operationId id request
      x).trailPart k = x.trailPart k := by
    intro x k
    unfold WorkOrderOperationReport.writeOperation
    split
    · exact trailPart_congr rfl rfl rfl k
    · rfl
  refine Watch.Safe.select_bind fun v₁ tr₁ _ _ =>
    ⟨.of_free rfl fun _ hk => (by cases hk), ?_⟩
  refine Watch.Safe.orFail_bind fun before hbefore => ?_
  refine Watch.Safe.writeIf_bind fun v₂ tr₂ _ hfree₂ _ => ⟨fun _ _ => .of_free rfl fun k hk =>
    hfree₂ k hk List.not_mem_nil, fun _ => ⟨.of_same fun k x => hsame x k, .of_free rfl
      fun k hk => ?_, ?_⟩⟩
  · change Trail _ (Db.trailPart k _)
    rw [hsame]
    exact hfree₂ k hk List.not_mem_nil
  refine Watch.Safe.bind (Watch.Safe.select_bind fun v₃ tr₃ _ _ =>
    ⟨.of_free rfl fun _ hk => (by cases hk), ?_⟩)
  rw [← Prog.bind_ret (Prog.writeIf _ _ _ _)]
  refine Watch.Safe.writeIf_bind fun v₄ tr₄ _ hfree₄ hread => ?_
  -- the order that is written is the one that was read
  have hrow : v₄.workOrders.get? id = some before := (hread rfl).symm.trans hbefore
  have hkeys := lockRow_order hrow
  have hmem : Key.row .workOrders id ∈ lockRow .workOrders id (v₄.workOrders.has id) := by
    rw [hkeys]
    exact List.mem_cons_self
  have htrail := trail_of_order hrow (hfree₄ _ hmem List.not_mem_nil)
  have hnone : TrackedRequest.owing ar (.report ctx id operationId request) [v₁, v₂, v₃] = [] := rfl
  simp only [hkeeps, List.nil_append, List.cons_append]
  rw [hnone, List.nil_append, hkeys, if_pos (Table.has_iff.mpr ⟨before, hrow⟩)]
  refine ⟨fun e he => .of_free ?_ fun k hk => ?_, fun hok => ?_⟩
  · rw [hkeeps, owing_report rfl, he, if_neg (by simp)]
  · exact hfree₄ k (by rwa [hkeys]) List.not_mem_nil
  -- the sums are stored: the change is there, and is to be recorded
  have howed : ∀ vs : List Db, vs[2]? = some v₃ → vs.length = 4 ∨ vs.length = 5 →
      TrackedRequest.owing ar (.report ctx id operationId request) vs = [.row .workOrders id] := by
    intro vs hvs hlen
    rw [owing_report hvs, if_pos ⟨hlen, hok⟩]
  rw [howed [v₁, v₂, v₃, v₄] rfl (.inl rfl)]
  refine ⟨order_writes List.mem_cons_self, settles_of_keeps ?_, Watch.Safe.ret fun v₅ tr₅ hr₅ => ?_⟩
  · rw [hkeeps, howed _ rfl (.inl rfl)]
  · refine Watch.Safe.mono (recordPick_safe ((Knows.of_order hrow).writeOrder.rely hr₅) htrail
      (fun u => ?_) fun u u' => ?_) fun _ _ _ _ _ h => done h
    · rw [hkeeps]
      exact howed [v₁, v₂, v₃, v₄, u] rfl (.inr rfl)
    · rw [hkeeps]
      exact List.nil_subset _

/-- A pick changes nothing of the order, and records it. -/
theorem pick_safe (ctx : Operator) (id : ID) (request : WorkOrderMaterialPick.PickRequest) :
    (trailWatch ar db).Safe (.pick ctx id request)
      (fun _ _ => (trailWatch ar db).Done (.pick ctx id request))
      (WorkOrderMaterialPick.execute ar ctx id request) [] [] v tr := by
  refine Watch.Safe.bind (Watch.Safe.selectForUpdate_bind rfl fun v₁ tr₁ _ hfree _ => ?_)
  refine Watch.Safe.orFail_bind fun before hrow => Watch.Safe.ensure_bind fun _ => ?_
  have hkeys := lockRow_order hrow
  have htrail := trail_of_order hrow (hfree (.row .workOrders id)
    (by rw [hkeys]; exact List.mem_cons_self) List.not_mem_nil)
  rw [List.nil_append, hkeys]
  refine Watch.Safe.ret fun v₂ tr₂ hr₂ => Watch.Safe.bind (Watch.Safe.mono (Watch.Safe.neutral rfl
    (neutral ?_) ((Watch.Kept.refl _ _ _).rely hr₂)) fun _ vs own v₃ tr₃ hkept => ?_)
  · refine Prog.preserves_forEach fun item _ => ?_
    exact WorkOrderMaterialPick.pickItem_preserves ar id item (fun _ _ => rfl) fun _ => rfl
  · have h : Knows db (.row .workOrders id)
        ⟨some (.workOrder before), v₁.updatesOf (.row .workOrders id)⟩ own v₃ :=
      (Knows.of_order hrow).kept hkept
    exact recordPick_txn rfl h htrail

theorem complete_safe (ctx : Operator) (id : ID) :
    (trailWatch ar db).Safe (.complete ctx id)
      (fun _ _ => (trailWatch ar db).Done (.complete ctx id))
      (WorkOrderComplete.execute ctx id) [] [] v tr := by
  have hkeeps : ∀ vs own, (trailWatch ar db).keeps (.complete ctx id) vs own = own :=
    fun _ _ => Watch.keeps_txn rfl _ _
  refine Watch.Safe.bind (Watch.Safe.selectForUpdate_bind rfl fun v₁ tr₁ _ hfree _ => ?_)
  refine Watch.Safe.orFail_bind fun before hrow => Watch.Safe.ensure_bind fun _ => ?_
  have hkeys := lockRow_order hrow
  have htrail := trail_of_order hrow (hfree (.row .workOrders id)
    (by rw [hkeys]; exact List.mem_cons_self) List.not_mem_nil)
  rw [List.nil_append, hkeys]
  refine Watch.Safe.ret fun v₂ tr₂ hr₂ => Watch.Safe.update_bind fun v₃ tr₃ hr₃ hfree₃ _ => ?_
  have h₁ : Knows db _ _ _ v₁ := Knows.of_order hrow
  have h₃ := ((h₁.rely hr₂).rely hr₃).grow hfree₃
  simp only [hkeeps]
  refine ⟨order_writes h₃.mem, .of_txn rfl, ?_⟩
  exact recordPick_txn rfl h₃.writeOrder htrail

section Items

variable {id : ID} {c : ItemColumns}

theorem tracked?_setColumns_self : (ItemRepository.setColumns id c v).tracked? (.row .items id) =
    (v.tracked? (.row .items id)).map (Tracked.mapItem (ItemRow.setColumns c)) := by
  simp only [Db.tracked?, ItemRepository.setColumns, Table.get?_modify_self, Option.map_map]
  rfl

theorem tracked?_setColumns_of_ne {j : Key} (h : j ≠ .row .items id) :
    (ItemRepository.setColumns id c v).tracked? j = v.tracked? j := by
  rcases j with _ | ⟨tn, j⟩
  · rfl
  · cases tn with
    | items =>
      have hj : j ≠ id := by
        rintro rfl
        exact h rfl
      simp only [Db.tracked?, ItemRepository.setColumns, Table.get?_modify_of_ne hj]
    | _ => rfl

/-- A locked item may be written. -/
theorem item_writes (hown : .row .items id ∈ own) :
    (trailWatch ar db).Writes own v tr (ItemRepository.setColumns id c) :=
  row_writes hown (Tracked.mapItem (ItemRow.setColumns c)) (fun _ => tracked?_setColumns_self)
    (fun _ _ hj => tracked?_setColumns_of_ne hj) fun _ => rfl

theorem trailPart_of_item {row : ItemRow} (hrow : v.items.get? id = some row) :
    v.trailPart (.row .items id) = ⟨some (.item row), v.updatesOf (.row .items id)⟩ := by
  rw [Db.trailPart, Db.tracked?, hrow]
  rfl

/-- An item that is there is not deleted. -/
theorem has_item_of_rely (h : (trailWatch ar db).Rely own v tr v' tr')
    (hv : v.items.has id = true) : v'.items.has id = true := by
  have hpresent := (h.moved (.row .items id)).present
  change ((v.items.get? id).map Tracked.item).isSome →
    ((v'.items.get? id).map Tracked.item).isSome at hpresent
  rw [Option.isSome_map, Option.isSome_map] at hpresent
  exact hpresent hv

end Items

theorem item_safe (ctx : Operator) (id : ID) (request : UpdateItemRequest) :
    (trailWatch ar db).Safe (.item ctx id request)
      (fun _ _ => (trailWatch ar db).Done (.item ctx id request))
      ((TrackedRequest.item ctx id request).run ar) [] [] v tr := by
  have hkeeps : ∀ vs own, (trailWatch ar db).keeps (.item ctx id request) vs own = own :=
    fun _ _ => Watch.keeps_txn rfl _ _
  refine Watch.Safe.bind (Watch.Safe.select_bind fun v₁ tr₁ _ _ => ⟨.of_txn rfl, ?_⟩)
  refine Watch.Safe.bind (Watch.Safe.select_bind fun v₂ tr₂ hr₂ _ => ⟨.of_txn rfl, ?_⟩)
  refine Watch.Safe.orFail_bind fun current hcurrent => ?_
  obtain ⟨seen, hseen, rfl⟩ := Option.map_eq_some_iff.mp hcurrent
  refine Watch.Safe.writeIf_bind fun v₃ tr₃ hr₃ hfree hread => ⟨fun _ _ => .of_txn rfl,
    fun hok => ?_⟩
  obtain ⟨row, hrow⟩ := Table.has_iff.mp
    (has_item_of_rely hr₃ (Table.has_iff.mpr ⟨seen, hseen⟩))
  have hkeys : lockRow .items id (v₃.items.has id) = [.row .items id] := by
    rw [Table.has_iff.mpr ⟨row, hrow⟩]
    rfl
  have htrail : Trail (db.trailPart (.row .items id))
      ⟨some (.item row), v₃.updatesOf (.row .items id)⟩ := by
    rw [← trailPart_of_item hrow]
    exact hfree _ (by rw [hkeys]; exact List.mem_cons_self) (by simp [hkeeps])
  have hknows : Knows db (.row .items id) ⟨some (.item row), v₃.updatesOf (.row .items id)⟩
      [.row .items id] v₃ := ⟨List.mem_cons_self, trailPart_of_item hrow,
    fun _ hj hne => absurd (List.mem_singleton.mp hj) hne⟩
  have hwritten := hknows.write (w := ItemRepository.setColumns id (request.merge seen.columns))
    (tracked?_setColumns_self.trans (congrArg (Option.map _) hknows.tracked?_eq))
    (fun _ hj => tracked?_setColumns_of_ne hj) rfl
  simp only [hkeeps, List.nil_append, hkeys]
  refine ⟨item_writes List.mem_cons_self, .of_txn rfl, Watch.Safe.ret fun v₄ tr₄ hr₄ => ?_⟩
  refine Watch.Safe.select_bind fun v₅ tr₅ hr₅ _ => ⟨.of_txn rfl, ?_⟩
  have h₅ := (hwritten.rely hr₄).rely hr₅
  have hbefore : (v₁.items.get? id).map ItemRow.toItem = some row.toItem :=
    (hread rfl).trans (by rw [hrow, Option.map_some])
  have hafter : (v₅.items.get? id).map ItemRow.toItem =
      some (row.setColumns (request.merge seen.columns)).toItem := by
    obtain ⟨row', hrow', heq⟩ := Option.map_eq_some_iff.mp h₅.tracked?_eq
    rw [hrow', Option.map_some, Tracked.item.inj heq]
  rw [hbefore, hafter]
  refine Watch.Safe.bind (Watch.Safe.mono (record_safe (.item row) (.item _) rfl h₅ htrail ?_)
    fun _ _ _ _ _ h => Watch.Safe.ret fun _ _ hr => Watch.Safe.ret fun _ _ hr' =>
      done ((h.rely hr).rely hr'))
  intro u
  rw [hkeeps]
  exact List.Subset.refl _

theorem run_safe (r : TrackedRequest) :
    (trailWatch ar db).Safe r (fun _ _ => (trailWatch ar db).Done r) (r.run ar) [] [] v tr := by
  cases r with
  | item ctx id request => exact item_safe ctx id request
  | release ctx id => exact release_safe ctx id
  | pick ctx id request => exact pick_safe ctx id request
  | report ctx id operationId request => exact report_safe ctx id operationId request
  | complete ctx id => exact complete_safe ctx id

end trailWatch

/-! ## Along a run -/

/-- What is committed and open among the requests whose changes are recorded. -/
abbrev TrackedLive := Live Db Key Answer AppError Unit TrackedRequest

/-- One action among them. -/
def trackedStep (ar : Arith) : Machine TrackedLive (Action TrackedRequest Answer) :=
  Live.act (TrackedRequest.run ar) TrackedRequest.auto

/-- A change is made to the row that was read, and until it is recorded nobody else locks the row
and its request is not lost. -/
structure RecordsApart (ar : Arith) (l : TrackedLive) (a : Action TrackedRequest Answer) :
    Prop where
  writesRead : l.Meets TrackedRequest.WritesRead a
  apart : ∀ i ans, a = .step i ans → ∀ j u, l.config.session? j = some u → j ≠ i →
    ∀ k ∈ l.config.locks a, k ∉ u.request.owing ar (l.views j)
  unbroken : ∀ i s, l.config.session? i = some s → l.config.drops i a = true →
    s.request.owing ar (l.views i) = []

/-- Nobody has changed the row without having recorded it. -/
def Recorded (ar : Arith) (k : Key) (l : TrackedLive) : Prop :=
  ∀ i s, l.config.session? i = some s → k ∉ s.request.owing ar (l.views i)

/-- Along every run in which nobody comes between, the update records of an entity go on as a
chain; where no change is yet to be recorded, the last one stops at the present row. -/
theorem trails_chain (ar : Arith) (db : Db) {l : TrackedLive}
    (hl : Machine.Run (trackedStep ar) (RecordsApart ar) (Live.init db) l) (k : Key) :
    (∃ new, Continues (db.trailPart k) (l.config.db.updatesOf k) new) ∧
    (Recorded ar k l → Trail (db.trailPart k) (l.config.db.trailPart k) ∧
      (Chained (db.trailPart k) → Chained (l.config.db.trailPart k))) := by
  have hrun : ∀ r v tr, (∀ k, ¬(trailWatch ar db).Strays k → (trailWatch ar db).Holds k v tr) →
      (trailWatch ar db).Safe r (fun _ _ => (trailWatch ar db).Done r) (r.run ar) [] [] v tr :=
    fun r _ _ _ => trailWatch.run_safe r
  have hok : ∀ l a, RecordsApart ar l a → (trailWatch ar db).Allows l a := fun l a h =>
    ⟨h.writesRead, fun i ans ha j u hu hj _ => h.apart i ans ha j u hu hj,
      fun i s hs hdrops _ => h.unbroken i s hs hdrops⟩
  have hinit : (trailWatch ar db).Sound (Live.init db : TrackedLive) :=
    Watch.Sound.init fun k => Trail.refl _
  have hsound : (trailWatch ar db).Sound l := hinit.run hrun hok hl
  refine ⟨?_, fun hrecorded => ?_⟩
  · have hmoves : Develops (db.trailPart k) (db.trailPart k) (l.config.db.trailPart k) :=
      hinit.moves_run hrun hok hl k
    exact hmoves.going ⟨[], (List.append_nil _).symm, trivial⟩
  · have htrail : Trail (db.trailPart k) (l.config.db.trailPart k) :=
      hsound.holds k fun i s hs _ => hrecorded i s hs
    exact ⟨htrail, htrail.chained⟩

/-! ## Trails that are kept, and trails that break -/

section Examples

instance (r : TrackedRequest) (vs : List Db) (v : Db) : Decidable (r.WritesRead vs v) :=
  match r with
  | .item _ id _ => inferInstanceAs (Decidable (vs.length = 2 →
      (vs.head?.bind fun u => (u.items.get? id).map ItemRow.toItem) =
        (v.items.get? id).map ItemRow.toItem))
  | .release _ id => inferInstanceAs (Decidable (vs.length = 1 →
      (vs.head?.bind fun u => u.workOrders.get? id) = v.workOrders.get? id))
  | .report _ id _ _ => inferInstanceAs (Decidable (vs.length = 3 →
      (vs.head?.bind fun u => u.workOrders.get? id) = v.workOrders.get? id))
  | .pick _ _ _ => isTrue trivial
  | .complete _ _ => isTrue trivial

/-- The test that decides `RecordsApart` for session `j`. -/
private def leaves (ar : Arith) (l : TrackedLive) (a : Action TrackedRequest Answer) (j : ℕ) :
    Bool :=
  match l.config.session? j with
  | none => true
  | some u =>
    let owed := u.request.owing ar (l.views j)
    (!l.config.drops j a || owed.isEmpty) &&
      match a with
      | .step i _ => i = j || (l.config.locks a).all fun k => k ∉ owed
      | _ => true

private def recordsApart (ar : Arith) (l : TrackedLive) (a : Action TrackedRequest Answer) : Bool :=
  l.meets (fun r vs v => r.WritesRead vs v) a &&
    (List.range l.config.sessions.length).all (leaves ar l a)

private theorem recordsApart_sound {ar : Arith} {l : TrackedLive}
    {a : Action TrackedRequest Answer} (h : recordsApart ar l a = true) : RecordsApart ar l a := by
  obtain ⟨hmeets, hleaves⟩ := Bool.and_eq_true_iff.mp h
  have hsession : ∀ j u, l.config.session? j = some u → leaves ar l a j = true := fun j u hu =>
    List.all_eq_true.mp hleaves j (List.mem_range.mpr (Config.session?_lt hu))
  refine ⟨Live.meets_of_test (fun _ _ _ => of_decide_eq_true) hmeets,
    fun i ans ha j u hu hj k hk hin => ?_, fun j u hu hdrops => ?_⟩
  · have hj' := hsession j u hu
    subst ha
    simp only [leaves, hu, Bool.and_eq_true, Bool.or_eq_true, decide_eq_true_eq,
      List.all_eq_true] at hj'
    exact hj'.2.elim (fun heq => hj heq.symm) fun hall => hall k hk hin
  · have hj' := hsession j u hu
    simp only [leaves, hu, Bool.and_eq_true, Bool.or_eq_true, hdrops, Bool.not_true,
      Bool.false_eq_true, false_or, List.isEmpty_iff] at hj'
    exact hj'.1

/-- A database with a draft of a work order, and an item. -/
private def recorded : Db :=
  { Db.empty with
    workOrders := Table.empty.insert {
      id := 1, code := "MO", bomId := 2, itemId := 3, plannedQty := 10, completedQty := 0
      scrapQty := 0, status := 0, dueDate := none, remark := none }
    items := Table.empty.insert {
      id := 1, code := "RAW-000001", name := "A", categoryId := none, itemType := 1
      baseUnit := "kg", parentItemId := none, spec := none, isActive := true, reorderPoint := 0
      safetyStock := 0, version := 1 } }

private def recorder : Operator := { operatorId := 9, ip := none, userAgent := none }

private def rest : UpdateItemRequest :=
  { name := none, categoryId := none, baseUnit := none, parentItemId := none, spec := none
    isActive := none, reorderPoint := none, safetyStock := none }

private def renameItem : TrackedRequest := .item recorder 1 { rest with name := some "B" }

private def specifyItem : TrackedRequest := .item recorder 1 { rest with spec := some (some "S") }

private def goOn (i n : ℕ) : List (Action TrackedRequest Answer) :=
  List.replicate n (.step i (numbered 100 0))

private theorem trails_chain_play :
    ((trackedStep .i64).play (recordsApart .i64) (Live.init recorded)
      ([.start (.release recorder 1)] ++ goOn 0 6 ++ [.start (.complete recorder 1)] ++ goOn 1 6)).map
      (fun l => (l.config.sessions.all Option.isNone,
        (l.config.db.updatesOf (.row .workOrders 1)).length)) = some (true, 2) := by
  decide +kernel

/-- Nobody is at work any more. -/
private theorem recorded_of_idle {ar : Arith} {l : TrackedLive} {k : Key}
    (h : l.config.sessions.all Option.isNone = true) : Recorded ar k l := by
  intro i s hs
  have hmem := List.mem_of_getElem? (Option.join_eq_some_iff.mp hs)
  cases List.all_eq_true.mp h _ hmem

theorem trails_chain_completed : ∃ l : TrackedLive,
    (l.config.db.updatesOf (.row .workOrders 1)).length = 2 ∧
      Chained (l.config.db.trailPart (.row .workOrders 1)) := by
  obtain ⟨l, hl, h⟩ := Option.map_eq_some_iff.mp trails_chain_play
  obtain ⟨hidle, hlength⟩ := Prod.mk.inj h
  have hrun : Machine.Run (trackedStep .i64) (RecordsApart .i64) (Live.init recorded) l :=
    .of_play (fun _ _ => recordsApart_sound) .refl hl
  exact ⟨l, hlength, ((trails_chain .i64 recorded hrun (.row .workOrders 1)).2
    (recorded_of_idle hidle)).2 ⟨_, trivial, rfl⟩⟩

/-- The second of two records does not start where the first one stops. -/
private def parted (updates : List AuditLog) : Bool :=
  match updates with
  | [first, second] => second.before != first.after
  | _ => false

private theorem not_chained_of_parted {p : TrailPart} (h : parted p.updates = true) :
    ¬Chained p := by
  rintro ⟨value, hlinked, -⟩
  rcases hupdates : p.updates with _ | ⟨first, _ | ⟨second, _ | _⟩⟩ <;>
  rw [hupdates] at h hlinked <;> try cases h
  rw [parted, bne_iff_ne] at h
  exact h hlinked.2.1

private theorem item_play :
    ((trackedStep .i64).play (fun _ _ => true) (Live.init recorded)
      ([.start renameItem] ++ goOn 0 1 ++ [.start specifyItem] ++ goOn 1 7 ++ goOn 0 6)).map
      (fun l => (l.config.sessions.all Option.isNone,
        parted (l.config.db.updatesOf (.row .items 1)))) = some (true, true) := by
  decide +kernel

private theorem order_play :
    ((trackedStep .i64).play (fun _ _ => true) (Live.init recorded)
      ([.start (.report recorder 1 1 { completedQty := 1, scrapQty := none })] ++ goOn 0 1 ++
        [.start (.release recorder 1)] ++ goOn 1 6 ++ goOn 0 7)).map
      (fun l => (l.config.sessions.all Option.isNone,
        parted (l.config.db.updatesOf (.row .workOrders 1)))) = some (true, true) := by
  decide +kernel

/-- Two patches of an item, and a report and a release of a work order: one has read the row
before the other one changes it. When both are done, the records are no chain. -/
theorem trails_break :
    (∃ l : TrackedLive,
      Machine.Run (trackedStep .i64) (fun _ _ => True) (Live.init recorded) l ∧
      Recorded .i64 (.row .items 1) l ∧ Chained (recorded.trailPart (.row .items 1)) ∧
      ¬Chained (l.config.db.trailPart (.row .items 1))) ∧
    ∃ l : TrackedLive,
      Machine.Run (trackedStep .i64) (fun _ _ => True) (Live.init recorded) l ∧
      Recorded .i64 (.row .workOrders 1) l ∧ Chained (recorded.trailPart (.row .workOrders 1)) ∧
      ¬Chained (l.config.db.trailPart (.row .workOrders 1)) := by
  obtain ⟨l, hl, h⟩ := Option.map_eq_some_iff.mp item_play
  obtain ⟨m, hm, h'⟩ := Option.map_eq_some_iff.mp order_play
  obtain ⟨hidle, hparted⟩ := Prod.mk.inj h
  obtain ⟨hidle', hparted'⟩ := Prod.mk.inj h'
  exact ⟨⟨l, .of_play (fun _ _ _ => trivial) .refl hl, recorded_of_idle hidle, ⟨_, trivial, rfl⟩,
    not_chained_of_parted hparted⟩, m, .of_play (fun _ _ _ => trivial) .refl hm,
    recorded_of_idle hidle', ⟨_, trivial, rfl⟩, not_chained_of_parted hparted'⟩

end Examples

end Slab
