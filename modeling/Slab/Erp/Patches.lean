import Slab.Erp.Categories
import Slab.Erp.Customers
import Slab.Erp.Items

/-!
# Patches

The bodies of the `PATCH` endpoints of items, item categories and customers, whose fields can be
absent, null or a value each: what is deserialised of them, and what becomes of the row.

## Main definitions

- `JsonField` — a field of a body; `JsonField.option` and `JsonField.nested` deserialise it
- `JsonField.Patches`, `JsonField.Sets` — what a field should make of its column
- `UpdateItemBody`, `UpdateCategoryBody`, `UpdateCustomerBody` — the bodies

## Main results

- `patched_iff` — a patch does what its body says iff each null meets a column that is null already
-/

namespace Slab

open Txn

/-- A field of a JSON object. -/
inductive JsonField (α : Type) where
  | absent
  | null
  | value (a : α)
deriving DecidableEq

namespace JsonField

variable {α : Type}

/-- A field of type `Option<T>`: nothing of an absent key and of a null alike. -/
def option : JsonField α → Option α
  | absent => none
  | null => none
  | value a => some a

/-- A field of type `Option<Option<T>>`: the outer option takes the null. -/
def nested (f : JsonField α) : Option (Option α) := f.option.map some

/-- What the field should make of a column that can be null: leave it, clear it, set it. -/
def Patches (f : JsonField α) (old new : Option α) : Prop :=
  match f with
  | absent => new = old
  | null => new = none
  | value a => new = some a

/-- The same of a column that cannot be null; a null says nothing about it. -/
def Sets (f : JsonField α) (old new : α) : Prop :=
  match f with
  | absent => new = old
  | null => True
  | value a => new = a

/-- The field is not null, unless the column is. -/
def Harmless (f : JsonField α) (old : Option α) : Prop := f = null → old = none

theorem sets_option (f : JsonField α) (old : α) : f.Sets old (f.option.getD old) := by
  cases f with
  | absent => rfl
  | null => trivial
  | value a => rfl

/-- A column that can be null comes out as it should iff the field is harmless. -/
theorem patches_threeState_iff (f : JsonField α) (old : Option α) :
    f.Patches old (threeState f.nested old) ↔ f.Harmless old := by
  cases f with
  | absent => simp [Patches, nested, option, threeState, Harmless]
  | null => simp [Patches, nested, option, threeState, Harmless]
  | value a => simp [Patches, nested, option, threeState, Harmless]

theorem patches_option_iff (f : JsonField α) (old : Option α) :
    f.Patches old ((f.option.map some).getD old) ↔ f.Harmless old := by
  cases f with
  | absent => simp [Patches, option, Harmless]
  | null => simp [Patches, option, Harmless]
  | value a => simp [Patches, option, Harmless]

end JsonField

/-! ## Items -/

structure UpdateItemBody where
  name : JsonField String
  categoryId : JsonField ID
  baseUnit : JsonField String
  parentItemId : JsonField ID
  spec : JsonField String
  isActive : JsonField Bool
  reorderPoint : JsonField ℤ
  safetyStock : JsonField ℤ
deriving DecidableEq

namespace UpdateItemBody

variable (body : UpdateItemBody)

/-- The derived deserialisation. -/
def request : UpdateItemRequest where
  name := body.name.option
  categoryId := body.categoryId.option
  baseUnit := body.baseUnit.option
  parentItemId := body.parentItemId.nested
  spec := body.spec.nested
  isActive := body.isActive.option
  reorderPoint := body.reorderPoint.option
  safetyStock := body.safetyStock.option

/-- What the body should make of the columns. -/
def Patches (old new : ItemColumns) : Prop :=
  body.name.Sets old.name new.name ∧ body.categoryId.Patches old.categoryId new.categoryId ∧
    body.baseUnit.Sets old.baseUnit new.baseUnit ∧
    body.parentItemId.Patches old.parentItemId new.parentItemId ∧
    body.spec.Patches old.spec new.spec ∧ body.isActive.Sets old.isActive new.isActive ∧
    body.reorderPoint.Sets old.reorderPoint new.reorderPoint ∧
    body.safetyStock.Sets old.safetyStock new.safetyStock

/-- No column that can be null and is not is given a null. -/
def Harmless (old : ItemColumns) : Prop :=
  body.categoryId.Harmless old.categoryId ∧ body.parentItemId.Harmless old.parentItemId ∧
    body.spec.Harmless old.spec

theorem patches_merge_iff (old : ItemColumns) :
    body.Patches old (body.request.merge old) ↔ body.Harmless old := by
  simp only [Patches, Harmless, request, UpdateItemRequest.merge, JsonField.sets_option,
    JsonField.patches_threeState_iff, JsonField.patches_option_iff, true_and, and_true]

end UpdateItemBody

/-! ## Item categories -/

structure UpdateCategoryBody where
  name : JsonField String
  parentId : JsonField ID
  sortOrder : JsonField ℤ
deriving DecidableEq

namespace UpdateCategoryBody

variable (body : UpdateCategoryBody)

def request : UpdateCategoryRequest where
  name := body.name.option
  parentId := body.parentId.nested
  sortOrder := body.sortOrder.option

/-- What the body should make of the row. -/
def Patches (old new : ItemCategory) : Prop :=
  body.name.Sets old.name new.name ∧ body.parentId.Patches old.parentId new.parentId ∧
    body.sortOrder.Sets old.sortOrder new.sortOrder

def Harmless (old : ItemCategory) : Prop := body.parentId.Harmless old.parentId

end UpdateCategoryBody

/-- What is given of a category's columns, and the rest of the row. -/
def UpdateCategoryRequest.merge (request : UpdateCategoryRequest) (r : ItemCategory) :
    ItemCategory :=
  { r with
    name := request.name.getD r.name, parentId := threeState request.parentId r.parentId
    sortOrder := request.sortOrder.getD r.sortOrder }

/-- What a statement for a given value does to the row, and nothing if none is given. -/
theorem ifGiven_row {α : Type} {x : Option α} {statement : α → Handler Unit} {id : ID}
    {f : α → ItemCategory → ItemCategory}
    (hstatement : ∀ a v w, (statement a).Runs v w (.ok ()) →
      w.itemCategories.get? id = (v.itemCategories.get? id).map (f a))
    {v w : Db} {u : Unit} (h : (ifGiven x statement).Runs v w (.ok u)) :
    w.itemCategories.get? id =
      (v.itemCategories.get? id).map fun r => (x.map fun a => f a r).getD r := by
  cases x with
  | none =>
    obtain ⟨rfl, -⟩ := h
    exact Option.map_id'.symm
  | some a => exact hstatement a v w h

/-- The statements of a patch, one for each column that is given, make the merge of the row. -/
theorem ItemCategoryRepository.update_row {id : ID} {request : UpdateCategoryRequest} {v w : Db}
    {updated : Bool} (h : (update id request).Runs v w (.ok updated)) :
    w.itemCategories.get? id = (v.itemCategories.get? id).map request.merge := by
  simp only [update, Prog.runs_bind_ok, Prog.pure_eq, Prog.runs_ret] at h
  obtain ⟨u₁, _, hname, u₂, _, hparent, _, _, hsort, rfl, -⟩ := h
  have hcolumn : ∀ (f : ItemCategory → ItemCategory) (hf : ∀ c, (f c).id = c.id) (v w : Db),
      (updateColumn id f hf).Runs v w (.ok ()) →
        w.itemCategories.get? id = (v.itemCategories.get? id).map f := by
    intro f hf v w hrun
    obtain ⟨rfl, -⟩ := Prog.runs_update.mp hrun
    change (v.itemCategories.modify id f hf).get? id = _
    exact Table.get?_modify_self
  have hn := ifGiven_row (f := ItemCategory.setName) (fun name => hcolumn _ _) hname
  have hs := ifGiven_row (f := ItemCategory.setSortOrder) (fun sort => hcolumn _ _) hsort
  have hset : ∀ parent v w, (updateParent id parent).Runs v w (.ok ()) →
      w.itemCategories.get? id =
        (v.itemCategories.get? id).map (ItemCategory.setParent parent) := by
    intro parent v w hrun
    obtain ⟨-, rfl⟩ := Prog.runs_writeIf_ok.mp hrun
    change (v.itemCategories.modify id (ItemCategory.setParent parent)
      (ItemCategory.setParent_id parent)).get? id = _
    exact Table.get?_modify_self
  have hp := ifGiven_row (f := ItemCategory.setParent) hset hparent
  rw [hs, hp, hn, Option.map_map, Option.map_map]
  congr 1
  funext r
  obtain ⟨name, parent, sort⟩ := request
  cases name with
  | none => rcases parent with _ | _ | _ <;> cases sort <;> rfl
  | some name => rcases parent with _ | _ | _ <;> cases sort <;> rfl

/-- A patch that goes through has merged what it was given into the row, if there is one. -/
theorem ItemCategoryUpdate.execute_row {ctx : Operator} {id : ID}
    {request : UpdateCategoryRequest} {v w : Db} {response : UpdateCategoryResponse}
    (h : (execute ctx id request).Runs v w (.ok response)) :
    w.itemCategories.get? id = (v.itemCategories.get? id).map request.merge := by
  simp only [execute, readCategory, Prog.runs_bind_ok, Prog.runs_select, Prog.pure_eq,
    Prog.runs_ret] at h
  obtain ⟨_, before, ⟨rfl, -⟩, u, updated, hupdate, _, after, ⟨rfl, -⟩, u', _, hrec, rfl, -⟩ := h
  rw [← ItemCategoryRepository.update_row hupdate]
  cases before with
  | none => exact congrArg (fun db => db.itemCategories.get? id) hrec.1
  | some before =>
    cases after with
    | none => exact congrArg (fun db => db.itemCategories.get? id) hrec.1
    | some after =>
      obtain ⟨-, row, rfl⟩ := AuditService.record_runs hrec
      rfl

namespace UpdateCategoryBody

variable (body : UpdateCategoryBody)

theorem patches_merge_iff (old : ItemCategory) :
    body.Patches old (body.request.merge old) ↔ body.Harmless old := by
  simp only [Patches, Harmless, request, UpdateCategoryRequest.merge, JsonField.sets_option,
    JsonField.patches_threeState_iff, true_and, and_true]

end UpdateCategoryBody

/-! ## Customers -/

structure UpdateCustomerBody where
  name : JsonField String
  contactPerson : JsonField String
  phone : JsonField String
  address : JsonField String
  paymentTerms : JsonField String
  isActive : JsonField Bool
deriving DecidableEq

namespace UpdateCustomerBody

variable (body : UpdateCustomerBody)

def request : UpdateCustomerRequest where
  name := body.name.option
  contactPerson := body.contactPerson.nested
  phone := body.phone.nested
  address := body.address.nested
  paymentTerms := body.paymentTerms.nested
  isActive := body.isActive.option

/-- What the body should make of the columns. -/
def Patches (old new : CustomerColumns) : Prop :=
  body.name.Sets old.name new.name ∧
    body.contactPerson.Patches old.contactPerson new.contactPerson ∧
    body.phone.Patches old.phone new.phone ∧ body.address.Patches old.address new.address ∧
    body.paymentTerms.Patches old.paymentTerms new.paymentTerms ∧
    body.isActive.Sets old.isActive new.isActive

/-- No column that can be null and is not is given a null. -/
def Harmless (old : CustomerColumns) : Prop :=
  body.contactPerson.Harmless old.contactPerson ∧ body.phone.Harmless old.phone ∧
    body.address.Harmless old.address ∧ body.paymentTerms.Harmless old.paymentTerms

theorem patches_merge_iff (old : CustomerColumns) :
    body.Patches old (body.request.merge old) ↔ body.Harmless old := by
  simp only [Patches, Harmless, request, UpdateCustomerRequest.merge, JsonField.sets_option,
    JsonField.patches_threeState_iff, true_and, and_true]

end UpdateCustomerBody

/-! ## The endpoints -/

/-- Each patch that goes through does what its body says, and nothing else to the row, iff no column
that can be null and is not is given a null. -/
theorem patched_iff (ctx : Operator) (id : ID) (v w : Db) :
    (∀ (body : UpdateItemBody) response r, v.items.get? id = some r →
      (ItemUpdate.execute ctx id body.request).Runs v w (.ok response) →
      ∃ new, w.items.get? id = some (r.setColumns new) ∧
        (body.Patches r.columns new ↔ body.Harmless r.columns)) ∧
    (∀ (body : UpdateCategoryBody) response r, v.itemCategories.get? id = some r →
      (ItemCategoryUpdate.execute ctx id body.request).Runs v w (.ok response) →
      ∃ new, w.itemCategories.get? id = some new ∧ new.isActive = r.isActive ∧
        (body.Patches r new ↔ body.Harmless r)) ∧
    ∀ (body : UpdateCustomerBody) response r, v.customers.get? id = some r →
      (CustomerUpdate.execute ctx id body.request).Runs v w (.ok response) →
      ∃ new, w.customers.get? id = some (r.setColumns new) ∧
        (body.Patches r.columns new ↔ body.Harmless r.columns) := by
  refine ⟨?_, ?_, ?_⟩
  · intro body response r hr h
    obtain ⟨r', hr', hw⟩ := ItemUpdate.execute_runs_ok h
    obtain rfl := Option.some.inj (hr.symm.trans hr')
    refine ⟨body.request.merge r.columns, ?_, body.patches_merge_iff r.columns⟩
    rw [hw, Table.get?_modify_of_some hr]
  · intro body response r hr h
    have hw := ItemCategoryUpdate.execute_row h
    rw [hr] at hw
    exact ⟨body.request.merge r, hw, rfl, body.patches_merge_iff r⟩
  · intro body response r hr h
    obtain ⟨r', hr', hw⟩ := CustomerUpdate.execute_runs_ok h
    obtain rfl := Option.some.inj (hr.symm.trans hr')
    refine ⟨body.request.merge r.columns, ?_, body.patches_merge_iff r.columns⟩
    rw [hw, Table.get?_modify_of_some hr]

/-- An item with a specification, and a body that says no more than that it is null. -/
def steelItem : ItemRow where
  id := 1
  code := "RAW-000001"
  name := "sheet"
  categoryId := none
  itemType := 1
  baseUnit := "kg"
  parentItemId := none
  spec := some "steel"
  isActive := true
  reorderPoint := 0
  safetyStock := 0
  version := 1

def clearSpec : UpdateItemBody where
  name := .absent
  categoryId := .absent
  baseUnit := .absent
  parentItemId := .absent
  spec := .null
  isActive := .absent
  reorderPoint := .absent
  safetyStock := .absent

/-- The specification stays. -/
theorem spec_not_cleared :
    ∃ w r response, (ItemUpdate.execute ⟨1, none, none⟩ 1 clearSpec.request).Transacts
        { Db.empty with items := Table.empty.insert steelItem } w (.ok response) ∧
      w.items.get? 1 = some r ∧ r.spec = some "steel" ∧
      ¬ clearSpec.Patches steelItem.columns r.columns := by
  have hok : ((ItemUpdate.execute ⟨1, none, none⟩ 1 clearSpec.request).transact (numbered 100)
      { Db.empty with items := Table.empty.insert steelItem }).2.toOption = some ⟨true⟩ := by
    decide +kernel
  have hrow : ((ItemUpdate.execute ⟨1, none, none⟩ 1 clearSpec.request).transact (numbered 100)
      { Db.empty with items := Table.empty.insert steelItem }).1.items.get? 1 =
      some steelItem := by decide +kernel
  refine ⟨_, steelItem, _, Prog.transacts_of_toOption hok, hrow, rfl, ?_⟩
  rintro ⟨-, -, -, -, hspec, -⟩
  cases hspec

end Slab
