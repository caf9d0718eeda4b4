import Slab.Erp.Services

/-!
# Items

The handlers that patch and delete an item. A patch reads the row, merges what it was given into
the columns it has read, and writes all of them back.
-/

namespace Slab

open Txn

/-- The columns that a patch writes. -/
structure ItemColumns where
  name : String
  categoryId : Option ID
  baseUnit : String
  parentItemId : Option ID
  spec : Option String
  isActive : Bool
  reorderPoint : ℤ
  safetyStock : ℤ
deriving DecidableEq

namespace ItemRow

def columns (r : ItemRow) : ItemColumns where
  name := r.name
  categoryId := r.categoryId
  baseUnit := r.baseUnit
  parentItemId := r.parentItemId
  spec := r.spec
  isActive := r.isActive
  reorderPoint := r.reorderPoint
  safetyStock := r.safetyStock

def setColumns (c : ItemColumns) (r : ItemRow) : ItemRow :=
  { r with
    name := c.name, categoryId := c.categoryId, baseUnit := c.baseUnit
    parentItemId := c.parentItemId, spec := c.spec, isActive := c.isActive
    reorderPoint := c.reorderPoint, safetyStock := c.safetyStock }

theorem setColumns_id (c : ItemColumns) (r : ItemRow) : (r.setColumns c).id = r.id := rfl

@[simp] theorem columns_setColumns (c : ItemColumns) (r : ItemRow) :
    (r.setColumns c).columns = c := rfl

@[simp] theorem setColumns_setColumns (c d : ItemColumns) (r : ItemRow) :
    (r.setColumns c).setColumns d = r.setColumns d := rfl

@[simp] theorem setColumns_columns (r : ItemRow) : r.setColumns r.columns = r := rfl

/-- `SET is_active = FALSE`. -/
def deactivate (r : ItemRow) : ItemRow := { r with isActive := false }

theorem deactivate_id (r : ItemRow) : r.deactivate.id = r.id := rfl

end ItemRow

/-- `None`: not given, `Some(None)`: set to null, `Some(Some(v))`: set to `v`. -/
structure UpdateItemRequest where
  name : Option String
  categoryId : Option ID
  baseUnit : Option String
  parentItemId : Option (Option ID)
  spec : Option (Option String)
  isActive : Option Bool
  reorderPoint : Option ℤ
  safetyStock : Option ℤ
deriving DecidableEq

/-- What is given, and the rest of what has been read. -/
def UpdateItemRequest.merge (request : UpdateItemRequest) (current : ItemColumns) :
    ItemColumns where
  name := request.name.getD current.name
  categoryId := (request.categoryId.map some).getD current.categoryId
  baseUnit := request.baseUnit.getD current.baseUnit
  parentItemId := threeState request.parentItemId current.parentItemId
  spec := threeState request.spec current.spec
  isActive := request.isActive.getD current.isActive
  reorderPoint := request.reorderPoint.getD current.reorderPoint
  safetyStock := request.safetyStock.getD current.safetyStock

/-- The row as the entity. -/
def ItemPort.byId (id : ID) : Handler (Option Item) :=
  Prog.select fun db => (db.items.get? id).map ItemRow.toItem

namespace ItemRepository

/-- The refusal of a category or a parent item that is not there; a reference that stays the same
is not checked. -/
def referenceMissing (id : ID) (c : ItemColumns) (db : Db) : Option AppError :=
  match db.items.get? id with
  | none => none
  | some r =>
    (references (c.categoryId = r.categoryId || c.categoryId.all fun p =>
      db.itemCategories.has p)).or
    (references (c.parentItemId = r.parentItemId || c.parentItemId.all fun p => db.items.has p))

def setColumns (id : ID) (c : ItemColumns) (db : Db) : Db :=
  { db with items := db.items.modify id (ItemRow.setColumns c) (ItemRow.setColumns_id c) }

/-- `UPDATE items SET name = $1, … WHERE id = $9`. -/
def writeColumns (id : ID) (c : ItemColumns) : Handler Unit :=
  Prog.writeIf (fun db => lockRow .items id (db.items.has id))
    (fun db => lockRow .items id (db.items.has id)) (referenceMissing id c) (setColumns id c)

def update (id : ID) (request : UpdateItemRequest) : Handler Bool := do
  let found ← Prog.select fun db => (db.items.get? id).map ItemRow.columns
  let current ← Prog.orFail found (.item .notFound)
  writeColumns id (request.merge current)
  pure true

def deactivate (id : ID) (db : Db) : Db :=
  { db with items := db.items.modify id ItemRow.deactivate ItemRow.deactivate_id }

/-- `UPDATE items SET is_active = FALSE WHERE id = $1`, and whether there was a row. -/
def delete (id : ID) : Handler Bool :=
  Prog.writeReturning (fun db => lockRow .items id (db.items.has id))
    (fun db => lockRow .items id (db.items.has id)) (fun _ => none) (deactivate id)
    fun db => db.items.has id

end ItemRepository

namespace ItemUpdate

structure UpdateItemResponse where
  updated : Bool
deriving DecidableEq

def execute (ctx : Operator) (id : ID) (request : UpdateItemRequest) :
    Handler UpdateItemResponse := do
  let before ← ItemPort.byId id
  let updated ← ItemRepository.update id request
  let after ← ItemPort.byId id
  ifGiven before fun before => ifGiven after fun after =>
    AuditService.recordUpdated "item" id ctx (.item before) (.item after)
  pure { updated := updated }

/-- A patch that goes through has written the merge of what it was given into the row. -/
theorem execute_runs_ok {ctx : Operator} {id : ID} {request : UpdateItemRequest} {v w : Db}
    {response : UpdateItemResponse} (h : (execute ctx id request).Runs v w (.ok response)) :
    ∃ r, v.items.get? id = some r ∧
      w.items = v.items.modify id (ItemRow.setColumns (request.merge r.columns))
        (ItemRow.setColumns_id _) := by
  simp only [execute, ItemPort.byId, ItemRepository.update, ItemRepository.writeColumns,
    Prog.runs_bind_ok, Prog.runs_select, Prog.runs_orFail_ok, Prog.runs_writeIf_ok, Prog.pure_eq,
    Prog.runs_ret] at h
  obtain ⟨_, before, ⟨rfl, -⟩, _, _, ⟨_, _, ⟨rfl, hf⟩, _, cur, ⟨rfl, hcur⟩, _, _, ⟨-, rfl⟩, rfl, -⟩,
    _, after, ⟨rfl, -⟩, u, _, hrec, rfl, -⟩ := h
  cases hf
  obtain ⟨r, hr, rfl⟩ := Option.map_eq_some_iff.mp hcur
  refine ⟨r, hr, ?_⟩
  cases before with
  | none => exact congrArg Db.items hrec.1
  | some before =>
    cases after with
    | none => exact congrArg Db.items hrec.1
    | some after =>
      obtain ⟨-, row, rfl⟩ := AuditService.record_runs hrec
      rfl

end ItemUpdate

namespace ItemDelete

structure DeleteItemResponse where
  deleted : Bool
deriving DecidableEq

def execute (ctx : Operator) (id : ID) : Handler DeleteItemResponse := do
  let before ← ItemPort.byId id
  let deleted ← ItemRepository.delete id
  ifGiven before fun before => AuditService.recordDeleted "item" id ctx (.item before)
  pure { deleted := deleted }

theorem execute_runs_ok {ctx : Operator} {id : ID} {v w : Db} {response : DeleteItemResponse}
    (h : (execute ctx id).Runs v w (.ok response)) :
    w.items = (ItemRepository.deactivate id v).items := by
  simp only [execute, ItemPort.byId, ItemRepository.delete, Prog.runs_bind_ok, Prog.runs_select,
    Prog.runs_writeReturning_ok, Prog.pure_eq, Prog.runs_ret] at h
  obtain ⟨_, before, ⟨rfl, -⟩, _, _, ⟨-, rfl, -⟩, u, _, hrec, rfl, -⟩ := h
  cases before with
  | none => exact congrArg Db.items hrec.1
  | some before =>
    obtain ⟨-, row, rfl⟩ := AuditService.record_runs hrec
    rfl

end ItemDelete

end Slab
