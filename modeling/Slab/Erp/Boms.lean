import Slab.Erp.Services

/-!
# Bills of material and their release

`BomCreate.execute` and `BomRelease.execute` are the handlers of `POST /api/v1/boms` and
`POST /api/v1/boms/{id}/release`. Unit, wastage rate and position of a component are not kept.
-/

namespace Slab

open Txn

/-- `SET status = $1`. -/
def Bom.setStatus (status : ℤ) (r : Bom) : Bom := { r with status := status }

theorem Bom.setStatus_id (status : ℤ) (r : Bom) : (r.setStatus status).id = r.id := rfl

namespace BomCreate

structure BomItemInput where
  itemId : ID
  quantity : ℤ
deriving DecidableEq

structure CreateBomRequest where
  name : String
  itemId : ID
  totalQty : Option ℤ
  remark : Option String
  items : List BomItemInput
deriving DecidableEq

structure CreateBomResponse where
  id : ID
  code : String
deriving DecidableEq

/-- The stored row; `version` has the default of the column. -/
def bomRow (id : ID) (code : String) (request : CreateBomRequest) : Bom where
  id := id
  code := code
  name := request.name
  itemId := request.itemId
  version := 1
  status := BomStatus.draft.toI16
  totalQty := request.totalQty.getD 1
  remark := request.remark

def bomItem (itemId bomId : ID) (item : BomItemInput) : BomItem where
  id := itemId
  bomId := bomId
  itemId := item.itemId
  quantity := item.quantity

/-- One round of `for (i, item) in request.items.iter().enumerate()`. -/
def insertItem (bomId : ID) (item : BomItemInput) : Handler Unit := do
  let itemId ← ask .newId
  insertRow .bomItems itemId (fun db => db.bomItems.has itemId) fun db =>
    { db with bomItems := db.bomItems.insert (bomItem itemId bomId item) }

/-- The audit row, from the BOM read back. -/
def recordBom (ctx : Operator) (id : ID) : Handler Unit := do
  let row ← Prog.select fun db => db.boms.get? id
  let bom ← Prog.orFail row (.sql .rowNotFound)
  AuditService.recordCreate "bom" id ctx (.bom bom)

def execute (ctx : Operator) (request : CreateBomRequest) : Handler CreateBomResponse := do
  let id ← ask .newId
  let code ← DocNumberer.nextNumber "seq_bom" "BOM"
  insertRow .boms id (fun db => db.boms.has id) fun db =>
    { db with boms := db.boms.insert (bomRow id code request) }
  Prog.forEach request.items (insertItem id)
  recordBom ctx id
  pure { id := id, code := code }

theorem recordBom_runs {ctx : Operator} {id : ID} {v w : Db}
    (h : (recordBom ctx id).Runs v w (.ok ())) : ∃ logs, w = { v with auditLogs := logs } := by
  simp only [recordBom, Prog.runs_bind_ok, Prog.runs_select, Prog.runs_orFail_ok] at h
  obtain ⟨_, _, ⟨rfl, -⟩, _, _, ⟨rfl, -⟩, hrec⟩ := h
  obtain ⟨-, row, rfl⟩ := AuditService.record_runs hrec
  exact ⟨_, rfl⟩

/-- The loop adds components of the new BOM. -/
theorem insertItems_runs {bomId : ID} {items : List BomItemInput} {v w : Db}
    (h : (Prog.forEach items (insertItem bomId)).Runs v w (.ok ())) :
    ∃ t : Table BomItem.id, w = { v with bomItems := t } ∧
      ∀ p g, (∀ bi : BomItem, bi.bomId = bomId → p bi = false) →
        t.tally p g = v.bomItems.tally p g := by
  induction items generalizing v with
  | nil =>
    obtain ⟨rfl, -⟩ := h
    exact ⟨_, rfl, fun _ _ _ => rfl⟩
  | cons item items ih =>
    obtain ⟨u, h₁, h₂⟩ := Prog.runs_forEach_cons_ok.mp h
    simp only [insertItem, Prog.runs_bind_ok, ask, Prog.runs_ask, insertRow,
      Prog.runs_insert_ok] at h₁
    obtain ⟨_, itemId, ⟨rfl, -⟩, -, rfl⟩ := h₁
    obtain ⟨t, rfl, htally⟩ := ih h₂
    refine ⟨t, rfl, fun p g hp => (htally p g hp).trans ?_⟩
    rw [Table.tally_insert_eq, hp (bomItem itemId bomId item) rfl]
    simp

/-- A BOM that is created is a draft under a new identifier, and components of other BOMs stay
as they are. -/
theorem execute_runs_ok {ctx : Operator} {request : CreateBomRequest} {v w : Db}
    {response : CreateBomResponse} (h : (execute ctx request).Runs v w (.ok response)) :
    ∃ (id : ID) (code : String) (t : Table BomItem.id) (logs : List AuditLog),
      v.boms.get? id = none ∧
      w = { v with
        boms := v.boms.insert (bomRow id code request)
        bomItems := t
        auditLogs := logs } ∧
      ∀ p g, (∀ bi : BomItem, bi.bomId = id → p bi = false) →
        t.tally p g = v.bomItems.tally p g := by
  simp only [execute, Prog.runs_bind_ok, ask, Prog.runs_ask, insertRow, Prog.runs_insert_ok,
    unique_eq_none, Prog.pure_eq, Prog.runs_ret] at h
  obtain ⟨_, id, ⟨rfl, -⟩, _, code, hcode, _, _, ⟨hfree, rfl⟩, _, _, hitems, _, _, hrec, rfl, -⟩ := h
  obtain rfl := (DocNumberer.nextNumber_preserves (fun db => db) _ _).runs hcode
  obtain ⟨t, rfl, htally⟩ := insertItems_runs hitems
  obtain ⟨logs, rfl⟩ := recordBom_runs hrec
  exact ⟨id, code, t, logs, Table.has_eq_false.mp hfree, rfl, htally⟩

end BomCreate

namespace BomRelease

structure BomActionResponse where
  success : Bool
deriving DecidableEq

def execute (ctx : Operator) (id : ID) : Handler BomActionResponse := do
  let found ← Prog.selectForUpdate (fun db => lockRow .boms id (db.boms.has id))
    fun db => db.boms.get? id
  let before ← Prog.orFail found (.product .bomNotFound)
  Prog.ensure (before.status = BomStatus.draft.toI16) (.product .invalidStatus)
  Prog.update (fun db => lockRow .boms id (db.boms.has id)) fun db =>
    { db with
      boms := db.boms.modify id (Bom.setStatus BomStatus.released.toI16) (Bom.setStatus_id _) }
  let row ← Prog.select fun db => db.boms.get? id
  let after ← Prog.orFail row (.sql .rowNotFound)
  AuditService.recordUpdated "bom" id ctx (.bom before) (.bom after)
  pure { success := true }

/-- A draft becomes released. -/
theorem execute_runs_ok {ctx : Operator} {id : ID} {v w : Db} {response : BomActionResponse}
    (h : (execute ctx id).Runs v w (.ok response)) :
    ∃ b logs, v.boms.get? id = some b ∧ b.status = BomStatus.draft.toI16 ∧
      w = { v with
        boms := v.boms.modify id (Bom.setStatus BomStatus.released.toI16) (Bom.setStatus_id _)
        auditLogs := logs } := by
  simp only [execute, Prog.runs_bind_ok, Prog.runs_selectForUpdate, Prog.runs_orFail_ok,
    Prog.runs_ensure_ok, Prog.runs_update, Prog.runs_select, Prog.pure_eq, Prog.runs_ret] at h
  obtain ⟨_, found, ⟨rfl, hfound⟩, _, before, ⟨rfl, hbefore⟩, _, _, ⟨rfl, hdraft⟩, _, _, ⟨rfl, -⟩,
    _, row, ⟨rfl, -⟩, _, after, ⟨rfl, -⟩, _, _, hrec, rfl, -⟩ := h
  obtain ⟨-, log, rfl⟩ := AuditService.record_runs hrec
  exact ⟨before, _, (Except.ok.inj hfound).symm.trans hbefore, by simpa using hdraft, rfl⟩

end BomRelease

end Slab
