import Slab.Erp.Services
import Slab.Tree.Parents

/-!
# Item categories

The handlers that create, update and delete item categories, and the endpoint that builds the tree
of all of them by following the pointers down from the roots.

## Main definitions

- `ItemCategoryCreate.execute`, `ItemCategoryUpdate.execute`, `ItemCategoryDelete.execute`
- `buildTree`, `Db.categoryTree` — the tree, with a bound on the depth of the recursion
- `Db.IsTree` — no category is its own ancestor, and the tree lists every category once

## Main results

- `buildTree_spec` — the recursion ends, and lists what hangs under the roots, each node once
- `isTree_iff` — the tree is complete iff the pointers have no cycle
- `tree_of_serves` — along a run the tree stays complete iff no category is put under itself
-/

namespace Slab

open Txn

/-! ## The repository -/

namespace ItemCategory

/-- `SET name = $1`. -/
def setName (name : String) (c : ItemCategory) : ItemCategory := { c with name := name }

theorem setName_id (name : String) (c : ItemCategory) : (c.setName name).id = c.id := rfl

/-- `SET parent_id = $1`, or `NULL`. -/
def setParent (parent : Option ID) (c : ItemCategory) : ItemCategory :=
  { c with parentId := parent }

theorem setParent_id (parent : Option ID) (c : ItemCategory) : (c.setParent parent).id = c.id := rfl

/-- `SET sort_order = $1`. -/
def setSortOrder (sort : ℤ) (c : ItemCategory) : ItemCategory := { c with sortOrder := sort }

theorem setSortOrder_id (sort : ℤ) (c : ItemCategory) : (c.setSortOrder sort).id = c.id := rfl

end ItemCategory

/-- `None`: not given, `Some(None)`: set to null, `Some(Some(v))`: set to `v`. -/
structure UpdateCategoryRequest where
  name : Option String
  parentId : Option (Option ID)
  sortOrder : Option ℤ
deriving DecidableEq

namespace ItemCategoryRepository

/-- The refusal of a parent that is not there once the row `id` is. -/
def parentMissing (id : ID) (parent : Option ID) (db : Db) : Option AppError :=
  match parent with
  | some p => references (db.itemCategories.has p || decide (p = id))
  | none => none

def create (category : ItemCategory) : Handler Unit :=
  Prog.insert [.row .itemCategories category.id]
    (fun db => (unique (db.itemCategories.has category.id)).or
      (parentMissing category.id category.parentId db))
    fun db => { db with itemCategories := db.itemCategories.insert category }

/-- `UPDATE item_categories SET … WHERE id = $2`, of a column without a foreign key. -/
def updateColumn (id : ID) (f : ItemCategory → ItemCategory) (hf : ∀ c, (f c).id = c.id) :
    Handler Unit :=
  Prog.update (fun db => lockRow .itemCategories id (db.itemCategories.has id)) fun db =>
    { db with itemCategories := db.itemCategories.modify id f hf }

/-- `SET parent_id`: the foreign key is checked if there is a row to update. -/
def updateParent (id : ID) (parent : Option ID) : Handler Unit :=
  Prog.writeIf (fun db => lockRow .itemCategories id (db.itemCategories.has id))
    (fun db => lockRow .itemCategories id (db.itemCategories.has id))
    (fun db => if db.itemCategories.has id then parentMissing id parent db else none)
    fun db => { db with
      itemCategories := db.itemCategories.modify id (ItemCategory.setParent parent)
        (ItemCategory.setParent_id parent) }

def update (id : ID) (request : UpdateCategoryRequest) : Handler Bool := do
  ifGiven request.name fun name =>
    updateColumn id (ItemCategory.setName name) (ItemCategory.setName_id name)
  ifGiven request.parentId (updateParent id)
  ifGiven request.sortOrder fun sort =>
    updateColumn id (ItemCategory.setSortOrder sort) (ItemCategory.setSortOrder_id sort)
  pure true

/-- The refusal of a category that items refer to. -/
def itemsRefer (id : ID) (db : Db) : Option AppError :=
  references (db.items.rows.all fun i => i.categoryId ≠ some id)

def delete (id : ID) : Handler Bool := do
  let childCount ← Prog.select fun db =>
    (db.itemCategories.rows.filter fun c => c.parentId = some id).length
  Prog.ensure (!decide (childCount > 0)) (.item .categoryNotEmpty)
  Prog.writeReturning (fun db => lockRow .itemCategories id (db.itemCategories.has id))
    (fun db => lockRow .itemCategories id (db.itemCategories.has id)) (itemsRefer id)
    (fun db => { db with itemCategories := db.itemCategories.restrict fun c => c.id ≠ id })
    fun db => db.itemCategories.has id

end ItemCategoryRepository

/-! ## The endpoints -/

/-- The row, if there is one. -/
def readCategory (id : ID) : Handler (Option ItemCategory) :=
  Prog.select fun db => db.itemCategories.get? id

namespace ItemCategoryCreate

structure CreateCategoryRequest where
  name : String
  parentId : Option ID
  sortOrder : Option ℤ
deriving DecidableEq

structure CreateCategoryResponse where
  id : ID
deriving DecidableEq

def execute (ctx : Operator) (request : CreateCategoryRequest) :
    Handler CreateCategoryResponse := do
  let id ← ask .newId
  let category : ItemCategory :=
    { id := id, name := request.name, parentId := request.parentId
      sortOrder := request.sortOrder.getD 0, isActive := true }
  ItemCategoryRepository.create category
  AuditService.recordCreate "item_category" id ctx (.itemCategory category)
  pure { id := id }

end ItemCategoryCreate

namespace ItemCategoryUpdate

structure UpdateCategoryResponse where
  updated : Bool
deriving DecidableEq

def execute (ctx : Operator) (id : ID) (request : UpdateCategoryRequest) :
    Handler UpdateCategoryResponse := do
  let before ← readCategory id
  let updated ← ItemCategoryRepository.update id request
  let after ← readCategory id
  ifGiven before fun before => ifGiven after fun after =>
    AuditService.recordUpdated "item_category" id ctx (.itemCategory before) (.itemCategory after)
  pure { updated := updated }

end ItemCategoryUpdate

namespace ItemCategoryDelete

structure DeleteCategoryResponse where
  deleted : Bool
deriving DecidableEq

def execute (ctx : Operator) (id : ID) : Handler DeleteCategoryResponse := do
  let before ← readCategory id
  let deleted ← ItemCategoryRepository.delete id
  ifGiven before fun before =>
    AuditService.recordDeleted "item_category" id ctx (.itemCategory before)
  pure { deleted := deleted }

end ItemCategoryDelete

/-! ## The tree -/

inductive CategoryTreeNode where
  | mk (id : ID) (name : String) (sortOrder : ℤ) (children : List CategoryTreeNode)

mutual

/-- The categories that a node lists. -/
def CategoryTreeNode.ids : CategoryTreeNode → List ID
  | .mk id _ _ children => id :: CategoryTreeNode.idsAll children

def CategoryTreeNode.idsAll : List CategoryTreeNode → List ID
  | [] => []
  | t :: ts => t.ids ++ CategoryTreeNode.idsAll ts

end

/-- The nodes under a parent, with their own nodes; none if the recursion is to go deeper than
allowed. -/
def buildTree (nodes : List ItemCategory) : ℕ → Option ID → Option (List CategoryTreeNode)
  | 0, _ => none
  | depth + 1, parent => (nodes.filter fun n => n.parentId = parent).mapM fun n => do
    let children ← buildTree nodes depth (some n.id)
    pure (.mk n.id n.name n.sortOrder children)

/-- `ORDER BY parent_id NULLS FIRST, sort_order, id`. -/
def ItemCategory.before (a b : ItemCategory) : Prop :=
  toLex (a.parentId.isSome, toLex (a.parentId.getD 0, toLex (a.sortOrder, a.id))) ≤
    toLex (b.parentId.isSome, toLex (b.parentId.getD 0, toLex (b.sortOrder, b.id)))

instance (a b : ItemCategory) : Decidable (a.before b) :=
  inferInstanceAs (Decidable (_ ≤ _))

/-- The rows of the tree endpoint. -/
def Db.categoryRows (db : Db) : List ItemCategory :=
  db.itemCategories.rows.insertionSort ItemCategory.before

/-- The tree endpoint, with a recursion of so many levels. -/
def Db.categoryTree (depth : ℕ) (db : Db) : Option (List CategoryTreeNode) :=
  buildTree db.categoryRows depth none

/-! ## What the recursion lists -/

section Build

variable {nodes : List ItemCategory}

/-- The chains of the ancestors of a category. -/
abbrev CategoryPath (nodes : List ItemCategory) : List ItemCategory → Prop :=
  Parents.Path ItemCategory.id ItemCategory.parentId nodes

abbrev CategoryHangs (nodes : List ItemCategory) : List ItemCategory → ID → Prop :=
  Parents.Hangs ItemCategory.id ItemCategory.parentId nodes

/-- The nodes of siblings: all of them are built, and list what is at them or below. -/
theorem mapM_siblings {siblings : List ItemCategory}
    {build : ItemCategory → Option (List CategoryTreeNode)} {P : ItemCategory → ID → Prop}
    (hbuild : ∀ n ∈ siblings, ∃ ts, build n = some ts ∧
      (n.id :: CategoryTreeNode.idsAll ts).Nodup ∧
      ∀ k, k ∈ n.id :: CategoryTreeNode.idsAll ts ↔ P n k)
    (hapart : ∀ n ∈ siblings, ∀ m ∈ siblings, ∀ k, P n k → P m k → n = m)
    (hnodup : siblings.Nodup) :
    ∃ ts, (siblings.mapM fun n => do
        let children ← build n
        pure (CategoryTreeNode.mk n.id n.name n.sortOrder children)) = some ts ∧
      (CategoryTreeNode.idsAll ts).Nodup ∧
      ∀ k, k ∈ CategoryTreeNode.idsAll ts ↔ ∃ n ∈ siblings, P n k := by
  induction siblings with
  | nil => exact ⟨[], rfl, List.nodup_nil, fun k => by simp [CategoryTreeNode.idsAll]⟩
  | cons n siblings ih =>
    obtain ⟨ts, hts, hids, hmem⟩ := hbuild n List.mem_cons_self
    obtain ⟨hn, hrest⟩ := List.nodup_cons.mp hnodup
    obtain ⟨ts', hts', hids', hmem'⟩ := ih
      (fun m hm => hbuild m (List.mem_cons_of_mem n hm))
      (fun m hm q hq => hapart m (List.mem_cons_of_mem n hm) q (List.mem_cons_of_mem n hq)) hrest
    refine ⟨.mk n.id n.name n.sortOrder ts :: ts', ?_, ?_, fun k => ?_⟩
    · rw [List.mapM_cons, hts']
      simp [hts]
    · refine List.nodup_append.mpr ⟨hids, hids', fun k hk k' hk' he => ?_⟩
      -- what both list would belong to two siblings
      obtain ⟨m, hm, hk'⟩ := (hmem' k').mp hk'
      have hk := he ▸ (hmem k).mp hk
      obtain rfl := hapart n List.mem_cons_self m (List.mem_cons_of_mem n hm) k' hk hk'
      exact hn hm
    · rw [CategoryTreeNode.idsAll, CategoryTreeNode.ids, List.mem_append, hmem, hmem',
        List.exists_mem_cons_iff]

variable (hkeys : ∀ n ∈ nodes, ∀ m ∈ nodes, n.id = m.id → n = m)
include hkeys

/-- Below a chain of ancestors the recursion needs as many levels as there are further nodes, and
lists what hangs under the chain, each node once. -/
theorem buildTree_spec (hnodup : nodes.Nodup) (depth : ℕ) {l : List ItemCategory}
    (hl : l = [] ∨ CategoryPath nodes l) (hdepth : nodes.length < depth + l.length) :
    ∃ ts, buildTree nodes depth (l.head?.map ItemCategory.id) = some ts ∧
      (CategoryTreeNode.idsAll ts).Nodup ∧
      ∀ k, k ∈ CategoryTreeNode.idsAll ts ↔ CategoryHangs nodes l k := by
  induction depth generalizing l with
  | zero =>
    exfalso
    rcases hl with rfl | hl
    · simp at hdepth
    · have hle := hl.length_le hkeys
      omega
  | succ depth ih =>
    have hsibling : ∀ n, n ∈ nodes.filter (fun n => n.parentId = l.head?.map ItemCategory.id) ↔
        n ∈ nodes ∧ n.parentId = l.head?.map ItemCategory.id := by
      intro n
      rw [List.mem_filter, decide_eq_true_iff]
    have hbuild : ∀ n ∈ nodes.filter (fun n => n.parentId = l.head?.map ItemCategory.id),
        ∃ ts, buildTree nodes depth (some n.id) = some ts ∧
          (n.id :: CategoryTreeNode.idsAll ts).Nodup ∧
          ∀ k, k ∈ n.id :: CategoryTreeNode.idsAll ts ↔
            n.id = k ∨ CategoryHangs nodes (n :: l) k := by
      intro n hn
      have hpath := (Parents.path_cons_iff hl).mpr ((hsibling n).mp hn)
      obtain ⟨ts, hts, hids, hmem⟩ := ih (l := n :: l) (.inr hpath) (by simp; omega)
      refine ⟨ts, hts, List.nodup_cons.mpr ⟨fun hself => ?_, hids⟩, fun k => ?_⟩
      · exact Parents.not_hangs_self hkeys ((hmem n.id).mp hself)
      · rw [List.mem_cons, hmem, eq_comm]
    obtain ⟨ts, hts, hids, hmem⟩ := mapM_siblings hbuild
      (fun n hn m hm k h h' => Parents.eq_of_hangs hkeys hl ((hsibling n).mp hn)
        ((hsibling m).mp hm) h h')
      (hnodup.filter _)
    refine ⟨ts, hts, hids, fun k => (hmem k).trans (Iff.trans ?_ (Parents.hangs_iff hl).symm)⟩
    simp only [hsibling, and_assoc]

end Build

theorem mapM_mono {α β : Type} {f g : α → Option β} (h : ∀ a b, f a = some b → g a = some b)
    {l : List α} {bs : List β} (hl : l.mapM f = some bs) : l.mapM g = some bs := by
  induction l generalizing bs with
  | nil => exact hl
  | cons a l ih =>
    rw [List.mapM_cons] at hl ⊢
    obtain ⟨b, hb, hl⟩ := Option.bind_eq_some_iff.mp hl
    obtain ⟨bs', hbs', hl⟩ := Option.bind_eq_some_iff.mp hl
    rw [h a b hb, ih hbs']
    exact hl

/-- What a recursion finds is found by a deeper one. -/
theorem buildTree_mono {nodes : List ItemCategory} {depth depth' : ℕ} (h : depth ≤ depth')
    {parent : Option ID} {ts : List CategoryTreeNode}
    (hts : buildTree nodes depth parent = some ts) : buildTree nodes depth' parent = some ts := by
  induction depth generalizing depth' parent ts with
  | zero => cases hts
  | succ depth ih =>
    obtain ⟨depth', rfl⟩ : ∃ d, depth' = d + 1 := ⟨depth' - 1, by omega⟩
    rw [buildTree] at hts ⊢
    refine mapM_mono (fun n t hn => ?_) hts
    obtain ⟨children, hchildren, ht⟩ := Option.bind_eq_some_iff.mp hn
    exact Option.bind_eq_some_iff.mpr ⟨children, ih (by omega) hchildren, ht⟩

/-! ## The pointers of the stored categories -/

namespace Db

/-- The parent of a category: none if there is no such category. -/
def parents (db : Db) (id : ID) : Option (Option ID) :=
  (db.itemCategories.get? id).map ItemCategory.parentId

def ParentOf (db : Db) (a b : ID) : Prop := db.parents a = some (some b)

/-- The foreign key of the parent column. -/
def ParentsExist (db : Db) : Prop := ∀ a b, db.ParentOf a b → (db.parents b).isSome

/-- The stored categories are a tree: no category is its own ancestor, the recursion ends, and the
endpoint lists every category once. -/
structure IsTree (db : Db) : Prop where
  acyclic : Parents.Acyclic db.ParentOf
  listed : ∃ ts, (∀ depth, db.itemCategories.rows.length < depth → db.categoryTree depth = some ts) ∧
    (CategoryTreeNode.idsAll ts).Perm (db.itemCategories.rows.map ItemCategory.id)

variable {db : Db}

theorem mem_categoryRows {c : ItemCategory} :
    c ∈ db.categoryRows ↔ c ∈ db.itemCategories.rows :=
  List.mem_insertionSort _

theorem categoryRows_keys : ∀ n ∈ db.categoryRows, ∀ m ∈ db.categoryRows, n.id = m.id → n = m := by
  intro n hn m hm he
  have hget := Table.get?_of_mem (mem_categoryRows.mp hn)
  rw [he, Table.get?_of_mem (mem_categoryRows.mp hm)] at hget
  exact (Option.some.inj hget).symm

theorem parentOf_iff {a b : ID} : db.ParentOf a b ↔
    Parents.Link ItemCategory.id ItemCategory.parentId db.categoryRows a b := by
  constructor
  · intro h
    obtain ⟨c, hc, hp⟩ := Option.map_eq_some_iff.mp h
    exact ⟨c, mem_categoryRows.mpr (Table.mem_of_get? hc), Table.key_of_get? hc, hp⟩
  · rintro ⟨c, hc, rfl, hp⟩
    exact Option.map_eq_some_iff.mpr ⟨c, Table.get?_of_mem (mem_categoryRows.mp hc), hp⟩

/-- The recursion of the endpoint ends, and lists the categories that have a chain of ancestors up
to a root, each once. -/
theorem categoryTree_spec (db : Db) : ∃ ts,
    (∀ depth, db.itemCategories.rows.length < depth → db.categoryTree depth = some ts) ∧
    (CategoryTreeNode.idsAll ts).Nodup ∧
    ∀ k, k ∈ CategoryTreeNode.idsAll ts ↔
      ∃ c l, c.id = k ∧ CategoryPath db.categoryRows (c :: l) := by
  have hlength : db.categoryRows.length = db.itemCategories.rows.length :=
    List.length_insertionSort _ _
  have hnodup : db.categoryRows.Nodup :=
    (List.perm_insertionSort _ _).nodup_iff.mpr (List.Nodup.of_map _ db.itemCategories.nodup)
  obtain ⟨ts, hts, hids, hmem⟩ := buildTree_spec categoryRows_keys hnodup
    (db.itemCategories.rows.length + 1) (l := []) (.inl rfl) (by simp [hlength])
  refine ⟨ts, fun depth hdepth => buildTree_mono hdepth hts, hids, fun k => (hmem k).trans ?_⟩
  constructor
  · rintro ⟨c, l, hpath, rfl, -⟩
    exact ⟨c, l, rfl, hpath⟩
  · rintro ⟨c, l, rfl, hpath⟩
    exact ⟨c, l, hpath, rfl, List.nil_suffix⟩

/-- The tree is complete iff the pointers have no cycle. -/
theorem isTree_iff (hfk : db.ParentsExist) : db.IsTree ↔ Parents.Acyclic db.ParentOf := by
  refine ⟨IsTree.acyclic, fun hacyclic => ⟨hacyclic, ?_⟩⟩
  have hlink : Parents.Acyclic
      (Parents.Link ItemCategory.id ItemCategory.parentId db.categoryRows) :=
    hacyclic.mono fun a b h => parentOf_iff.mpr h
  have hparents : ∀ n ∈ db.categoryRows, ∀ p, n.parentId = some p →
      ∃ m ∈ db.categoryRows, m.id = p := by
    intro n hn p hp
    obtain ⟨_, h⟩ := Option.isSome_iff_exists.mp (hfk n.id p (parentOf_iff.mpr ⟨n, hn, rfl, hp⟩))
    obtain ⟨c, hc, -⟩ := Option.map_eq_some_iff.mp h
    exact ⟨c, mem_categoryRows.mpr (Table.mem_of_get? hc), Table.key_of_get? hc⟩
  have hrooted := (Parents.acyclic_iff_rooted categoryRows_keys hparents).mp hlink
  obtain ⟨ts, hts, hids, hmem⟩ := categoryTree_spec db
  refine ⟨ts, hts, (List.perm_ext_iff_of_nodup hids db.itemCategories.nodup).mpr fun k => ?_⟩
  rw [hmem, List.mem_map]
  constructor
  · rintro ⟨c, l, rfl, hpath⟩
    exact ⟨c, mem_categoryRows.mp hpath.mem, rfl⟩
  · rintro ⟨c, hc, rfl⟩
    obtain ⟨l, hl⟩ := hrooted c (mem_categoryRows.mpr hc)
    exact ⟨c, l, rfl, hl⟩

end Db

/-! ## What a request does to the pointers -/

section Pointers

variable {v w : Db} {id : ID} {ctx : Operator}

/-- A statement that is left out, or succeeds and keeps the pointers, does both. -/
theorem ifGiven_parents {α : Type} {x : Option α} {statement : α → Handler Unit}
    (hstatement : ∀ a v w r, (statement a).Runs v w r → r = .ok () ∧ w.parents = v.parents)
    {r : Except AppError Unit} (h : (ifGiven x statement).Runs v w r) :
    r = .ok () ∧ w.parents = v.parents := by
  cases x with
  | none =>
    obtain ⟨rfl, rfl⟩ := h
    exact ⟨rfl, rfl⟩
  | some a => exact hstatement a v w r h

theorem record_parents {entity : String} {action : AuditAction} {before after : Option Snapshot}
    (v w : Db) (r : Except AppError Unit)
    (h : (AuditService.record entity action id ctx before after).Runs v w r) :
    r = .ok () ∧ w.parents = v.parents := by
  obtain ⟨rfl, row, rfl⟩ := AuditService.record_runs h
  exact ⟨rfl, rfl⟩

theorem has_eq_parents (db : Db) (k : ID) : db.itemCategories.has k = (db.parents k).isSome := by
  rw [Table.has, Db.parents, Option.isSome_map]

/-- The pointers after an update of one row. -/
theorem parents_modify {f : ItemCategory → ItemCategory} (hf : ∀ c, (f c).id = c.id)
    {g : Option ID → Option ID} (hg : ∀ c, (f c).parentId = g c.parentId) (k : ID) :
    Db.parents { v with itemCategories := v.itemCategories.modify id f hf } k =
      if k = id then (v.parents id).map g else v.parents k := by
  rw [Db.parents, Table.get?_modify]
  by_cases hk : k = id
  · rw [if_pos hk, if_pos hk, hk, Db.parents, Option.map_map, Option.map_map]
    exact congrArg (Option.map · _) (funext hg)
  · rw [if_neg hk, if_neg hk, Db.parents]

theorem ItemCategoryRepository.parentMissing_eq_none {parent : Option ID} :
    parentMissing id parent v = none ↔ ∀ p, parent = some p → (v.parents p).isSome ∨ p = id := by
  cases parent with
  | none => simp [parentMissing]
  | some p =>
    simp only [parentMissing, references_eq_none, Bool.or_eq_true, decide_eq_true_iff,
      has_eq_parents, Option.some.injEq, forall_eq']

/-- A creation adds a new category with the parent of the request, which is there or is the new
category itself. -/
theorem ItemCategoryCreate.execute_runs_ok {request : CreateCategoryRequest}
    {response : CreateCategoryResponse} (h : (execute ctx request).Runs v w (.ok response)) :
    v.parents response.id = none ∧
      (∀ k, w.parents k = if k = response.id then some request.parentId else v.parents k) ∧
      ∀ p, request.parentId = some p → (v.parents p).isSome ∨ p = response.id := by
  simp only [execute, ItemCategoryRepository.create, Prog.runs_bind_ok, ask, Prog.runs_ask,
    Prog.runs_insert_ok, Prog.pure_eq, Prog.runs_ret] at h
  obtain ⟨_, id, ⟨rfl, -⟩, u, _, ⟨hrefusal, rfl⟩, _, _, hrecord, rfl, hresponse⟩ := h
  obtain rfl := Except.ok.inj hresponse
  obtain ⟨-, hparents⟩ := record_parents _ _ _ hrecord
  obtain ⟨hfresh, hparent⟩ := Option.or_eq_none_iff.mp hrefusal
  have hnone := Table.has_eq_false.mp (unique_eq_none.mp hfresh)
  refine ⟨?_, fun k => ?_, fun p hp => ?_⟩
  · rw [Db.parents, hnone]
    rfl
  · rw [hparents]
    by_cases hk : k = id
    · rw [if_pos hk, hk]
      exact congrArg (Option.map ItemCategory.parentId) (Table.get?_insert_self hnone)
    · rw [if_neg hk]
      exact congrArg (Option.map ItemCategory.parentId) (Table.get?_insert_of_ne (Ne.symm hk))
  · exact ItemCategoryRepository.parentMissing_eq_none.mp hparent p hp

/-- A category below is counted. -/
theorem childCount_pos {k : ID} (h : v.ParentOf k id) :
    (v.itemCategories.rows.filter fun c => c.parentId = some id).length > 0 := by
  obtain ⟨c, hc, hp⟩ := Option.map_eq_some_iff.mp h
  exact List.length_pos_of_mem (List.mem_filter.mpr ⟨Table.mem_of_get? hc, decide_eq_true hp⟩)

/-- A deletion takes out a category that has none below it, if there is one. -/
theorem ItemCategoryDelete.execute_runs_ok {response : DeleteCategoryResponse}
    (h : (execute ctx id).Runs v w (.ok response)) :
    (∀ k, w.parents k = if k = id then none else v.parents k) ∧ ∀ k, ¬ v.ParentOf k id := by
  simp only [execute, readCategory, ItemCategoryRepository.delete, Prog.runs_bind_ok,
    Prog.runs_select, Prog.runs_ensure_ok, Prog.runs_writeReturning_ok, Prog.pure_eq,
    Prog.runs_ret] at h
  obtain ⟨_, before, ⟨rfl, -⟩, u, _, ⟨_, count, ⟨rfl, hcount⟩, _, _, ⟨rfl, hzero⟩, -, rfl, -⟩,
    _, _, haudit, rfl, -⟩ := h
  obtain ⟨-, hparents⟩ := ifGiven_parents (fun _ => record_parents) haudit
  obtain rfl := Except.ok.inj hcount
  refine ⟨fun k => ?_, fun k hk => ?_⟩
  · rw [hparents]
    by_cases hk : k = id
    · rw [if_pos hk, Db.parents, Table.get?_restrict_eq_none]
      · rfl
      · intro c hc
        simp [hc, hk]
    · rw [if_neg hk, Db.parents, Table.get?_restrict]
      · rfl
      · intro c hc
        simp [hc, hk]
  · simp only [Bool.not_eq_eq_eq_not, Bool.not_true, decide_eq_false_iff_not] at hzero
    exact hzero (childCount_pos hk)

namespace ItemCategoryRepository

theorem updateColumn_parents {α : Type} {x : Option α} {f : α → ItemCategory → ItemCategory}
    {hf : ∀ a c, (f a c).id = c.id} {r : Except AppError Unit}
    (h : (ifGiven x fun a => updateColumn id (f a) (hf a)).Runs v w r)
    (hparent : ∀ a c, (f a c).parentId = c.parentId) : r = .ok () ∧ w.parents = v.parents := by
  refine ifGiven_parents (fun a v w r h => ?_) h
  obtain ⟨rfl, rfl⟩ := Prog.runs_update.mp h
  refine ⟨rfl, funext fun k => ?_⟩
  rw [parents_modify (hf a) (g := fun p => p) (hparent a)]
  split
  · next hk => rw [hk, Option.map_id']
  · rfl

/-- A new parent is written, unless there is a category to update and no such parent. -/
theorem updateParent_runs {parent : Option ID} {r : Except AppError Unit}
    (h : (updateParent id parent).Runs v w r) :
    (r ≠ .ok () ∧ ∃ p, parent = some p ∧ (v.parents id).isSome ∧ v.parents p = none) ∨
    (r = .ok () ∧
      (∀ k, w.parents k = if k = id then (v.parents id).map fun _ => parent else v.parents k) ∧
      ∀ p, parent = some p → (v.parents id).isSome → (v.parents p).isSome) := by
  cases r with
  | error e =>
    obtain ⟨hrefusal, -⟩ := Prog.runs_writeIf_error.mp h
    rw [has_eq_parents] at hrefusal
    by_cases hid : (v.parents id).isSome = true
    · rw [if_pos hid] at hrefusal
      have hmissing : ¬ parentMissing id parent v = none := by
        rw [hrefusal]
        exact Option.some_ne_none e
      rw [parentMissing_eq_none] at hmissing
      push Not at hmissing
      obtain ⟨p, hp, hnone, -⟩ := hmissing
      exact .inl ⟨by simp, p, hp, hid, Option.not_isSome_iff_eq_none.mp hnone⟩
    · rw [if_neg hid] at hrefusal
      cases hrefusal
  | ok x =>
    obtain ⟨hrefusal, rfl⟩ := Prog.runs_writeIf_ok.mp h
    refine .inr ⟨rfl, parents_modify _ fun _ => rfl, fun p hp hid => ?_⟩
    rw [has_eq_parents, if_pos hid] at hrefusal
    rcases parentMissing_eq_none.mp hrefusal p hp with hsome | rfl
    · exact hsome
    · exact hid

/-- The columns are written one after another; only the parent can be refused. -/
theorem update_runs {request : UpdateCategoryRequest} {r : Except AppError Bool}
    (h : (update id request).Runs v w r) :
    (r.isOk = false ∧ ∃ p, request.parentId = some (some p) ∧ (v.parents id).isSome ∧
      v.parents p = none) ∨
    (r.isOk = true ∧
      (∀ k, w.parents k =
        if k = id then (v.parents id).map fun old => request.parentId.getD old else v.parents k) ∧
      ∀ p, request.parentId = some (some p) → (v.parents id).isSome → (v.parents p).isSome) := by
  rcases Prog.runs_bind.mp h with ⟨u, _, hname, h⟩ | ⟨e, -, hname⟩
  · obtain ⟨-, hu⟩ := updateColumn_parents hname fun _ _ => rfl
    rw [← hu]
    have hrest : ∀ {t : Db}, ((ifGiven request.sortOrder fun sort => updateColumn id
        (ItemCategory.setSortOrder sort) (ItemCategory.setSortOrder_id sort)) >>= fun _ =>
          (Prog.ret true : Handler Bool)).Runs t w r → r.isOk = true ∧ w.parents = t.parents := by
      intro t ht
      rcases Prog.runs_bind.mp ht with ⟨t', _, hsort, rfl, rfl⟩ | ⟨e, -, hsort⟩
      · exact ⟨rfl, (updateColumn_parents hsort fun _ _ => rfl).2⟩
      · cases (updateColumn_parents hsort fun _ _ => rfl).1
    cases hparent : request.parentId with
    | none =>
      rw [hparent] at h
      obtain ⟨hr, hw⟩ := hrest h
      refine .inr ⟨hr, fun k => ?_, fun p hp => by cases hp⟩
      rw [hw]
      split
      · next hk =>
        rw [hk]
        exact Option.map_id'.symm
      · rfl
    | some parent =>
      rw [hparent] at h
      rcases Prog.runs_bind.mp h with ⟨t, _, hset, h⟩ | ⟨e, rfl, hset⟩
      · obtain ⟨hr, hw⟩ := hrest h
        rcases updateParent_runs hset with ⟨hne, -⟩ | ⟨-, hparents, hexists⟩
        · exact absurd rfl hne
        · refine .inr ⟨hr, fun k => by rw [hw]; exact hparents k, fun p hp => ?_⟩
          exact hexists p (Option.some.inj hp)
      · rcases updateParent_runs hset with ⟨-, p, hp, hid, hnone⟩ | ⟨he, -⟩
        · exact .inl ⟨rfl, p, congrArg some hp, hid, hnone⟩
        · cases he
  · cases (updateColumn_parents hname fun _ _ => rfl).1

end ItemCategoryRepository

/-- An update that goes through writes the parent of the request, if it gives one. -/
theorem ItemCategoryUpdate.execute_runs_ok {request : UpdateCategoryRequest}
    {response : UpdateCategoryResponse} (h : (execute ctx id request).Runs v w (.ok response)) :
    (∀ k, w.parents k =
      if k = id then (v.parents id).map fun old => request.parentId.getD old else v.parents k) ∧
    ∀ p, request.parentId = some (some p) → (v.parents id).isSome → (v.parents p).isSome := by
  simp only [execute, readCategory, Prog.runs_bind_ok, Prog.runs_select, Prog.pure_eq,
    Prog.runs_ret] at h
  obtain ⟨_, before, ⟨rfl, -⟩, u, updated, hupdate, _, after, ⟨rfl, -⟩, _, _, haudit, rfl, -⟩ := h
  obtain ⟨-, hw⟩ := ifGiven_parents (fun _ _ _ _ => ifGiven_parents fun _ => record_parents) haudit
  rw [hw]
  rcases ItemCategoryRepository.update_runs hupdate with ⟨hr, -⟩ | ⟨-, h⟩
  · cases hr
  · exact h

/-- An update is rejected for a parent that is not there. -/
theorem ItemCategoryUpdate.execute_runs_error {request : UpdateCategoryRequest} {e : AppError}
    (h : (execute ctx id request).Runs v w (.error e)) :
    ∃ p, request.parentId = some (some p) ∧ (v.parents id).isSome ∧ v.parents p = none := by
  rcases Prog.runs_bind_error.mp h with herror | ⟨u, before, hread, hwrite⟩
  · cases (Prog.runs_select.mp herror).2
  obtain ⟨rfl, -⟩ := Prog.runs_select.mp hread
  rcases Prog.runs_bind_error.mp hwrite with herror | ⟨t, updated, -, hafter⟩
  · rcases ItemCategoryRepository.update_runs herror with ⟨-, hmissing⟩ | ⟨hr, -⟩
    · exact hmissing
    · cases hr
  -- the audit row is never refused
  rcases Prog.runs_bind_error.mp hafter with herror | ⟨t', after, -, haudit⟩
  · cases (Prog.runs_select.mp herror).2
  rcases Prog.runs_bind_error.mp haudit with herror | ⟨t'', _, -, hret⟩
  · cases (ifGiven_parents (fun _ _ _ _ => ifGiven_parents fun _ => record_parents) herror).1
  · cases hret.2

end Pointers

/-! ## Requests -/

inductive CategoryRequest where
  | create (ctx : Operator) (request : ItemCategoryCreate.CreateCategoryRequest)
  | update (ctx : Operator) (id : ID) (request : UpdateCategoryRequest)
  | delete (ctx : Operator) (id : ID)

namespace CategoryRequest

/-- The transaction of a request, its response left out. -/
def run : CategoryRequest → Handler Unit
  | create ctx request => do
    let _ ← ItemCategoryCreate.execute ctx request
    pure ()
  | update ctx id request => do
    let _ ← ItemCategoryUpdate.execute ctx id request
    pure ()
  | delete ctx id => do
    let _ ← ItemCategoryDelete.execute ctx id
    pure ()

/-- The request puts a category under itself or under one that is below it. -/
def Loops : CategoryRequest → Db → Prop
  | update _ id request, db => ∃ p, request.parentId = some (some p) ∧ (db.parents id).isSome ∧
      Relation.ReflTransGen db.ParentOf p id
  | _, _ => False

/-- The identifier of a new category is not one that its request names. -/
def NamesNoNew (r : CategoryRequest) (v w : Db) : Prop :=
  ∀ ctx request p, r = create ctx request → request.parentId = some p → v.parents p = none →
    w.parents p = none

variable {v w : Db}

theorem create_step {ctx : Operator} {request : ItemCategoryCreate.CreateCategoryRequest}
    (h : ((create ctx request).run).Runs v w (.ok ())) (hfk : v.ParentsExist)
    (hacyclic : Parents.Acyclic v.ParentOf) (hnew : (create ctx request).NamesNoNew v w) :
    w.ParentsExist ∧ Parents.Acyclic w.ParentOf := by
  obtain ⟨response, h⟩ := Prog.runs_discard h
  obtain ⟨hnone, hw, hparent⟩ := ItemCategoryCreate.execute_runs_ok h
  have hold : ∀ a b, w.ParentOf a b →
      (a = response.id ∧ request.parentId = some b) ∨ v.ParentOf a b := by
    intro a b hab
    rw [Db.ParentOf, hw] at hab
    split at hab
    · next ha => exact .inl ⟨ha, Option.some.inj hab⟩
    · exact .inr hab
  have hsome : ∀ k, (v.parents k).isSome → (w.parents k).isSome := by
    intro k hk
    rw [hw]
    split
    · rfl
    · exact hk
  -- the parent was there before, as it is not the new category
  have hthere : ∀ p, request.parentId = some p → (v.parents p).isSome := by
    intro p hp
    rcases hparent p hp with hp' | rfl
    · exact hp'
    · have hnot := hnew ctx request response.id rfl hp hnone
      rw [hw, if_pos rfl] at hnot
      cases hnot
  have hunder : ∀ {p}, ¬ Relation.ReflTransGen v.ParentOf p response.id ∨ p = response.id := by
    intro p
    by_cases hp : p = response.id
    · exact .inr hp
    · refine .inl fun hpath => ?_
      rcases Relation.ReflTransGen.cases_tail hpath with he | ⟨b, -, hb⟩
      · exact hp he.symm
      · have hexists := hfk b response.id hb
        rw [hnone] at hexists
        cases hexists
  refine ⟨fun a b hab => ?_, ?_⟩
  · rcases hold a b hab with ⟨-, hb⟩ | hab
    · exact hsome b (hthere b hb)
    · exact hsome b (hfk a b hab)
  · cases hp : request.parentId with
    | none =>
      refine hacyclic.mono fun a b hab => ?_
      rcases hold a b hab with ⟨-, hb⟩ | hab
      · rw [hp] at hb
        cases hb
      · exact hab
    | some p =>
      have hk : w.ParentOf response.id p := by rw [Db.ParentOf, hw, if_pos rfl, hp]
      refine (Parents.acyclic_redirect_iff hacyclic hk (fun a b hab => ?_)
        (fun a b ha hab => ?_)).mpr ?_
      · refine (hold a b hab).imp_left fun h => ⟨h.1, ?_⟩
        rw [hp] at h
        exact (Option.some.inj h.2).symm
      · rw [Db.ParentOf, hw, if_neg ha]
        exact hab
      · refine hunder.resolve_right fun he => ?_
        have hsomep := hthere p hp
        rw [he, hnone] at hsomep
        cases hsomep

theorem delete_step {ctx : Operator} {id : ID} (h : ((delete ctx id).run).Runs v w (.ok ()))
    (hfk : v.ParentsExist) (hacyclic : Parents.Acyclic v.ParentOf) :
    w.ParentsExist ∧ Parents.Acyclic w.ParentOf := by
  obtain ⟨response, h⟩ := Prog.runs_discard h
  obtain ⟨hw, hnone⟩ := ItemCategoryDelete.execute_runs_ok h
  have hold : ∀ a b, w.ParentOf a b → v.ParentOf a b := by
    intro a b hab
    rw [Db.ParentOf, hw] at hab
    split at hab
    · cases hab
    · exact hab
  refine ⟨fun a b hab => ?_, hacyclic.mono hold⟩
  have hb : b ≠ id := by
    rintro rfl
    exact hnone a (hold a b hab)
  rw [hw, if_neg hb]
  exact hfk a b (hold a b hab)

theorem update_step {ctx : Operator} {id : ID} {request : UpdateCategoryRequest}
    (h : ((update ctx id request).run).Runs v w (.ok ())) (hfk : v.ParentsExist)
    (hacyclic : Parents.Acyclic v.ParentOf) :
    w.ParentsExist ∧ (Parents.Acyclic w.ParentOf ↔ ¬ (update ctx id request).Loops v) := by
  obtain ⟨response, h⟩ := Prog.runs_discard h
  obtain ⟨hw, hexists⟩ := ItemCategoryUpdate.execute_runs_ok h
  have hsome : ∀ k, (w.parents k).isSome = (v.parents k).isSome := by
    intro k
    rw [hw]
    split
    · next hk => rw [hk, Option.isSome_map]
    · rfl
  by_cases hset : ∃ p, request.parentId = some (some p) ∧ (v.parents id).isSome
  · obtain ⟨p, hp, hid⟩ := hset
    obtain ⟨old, hold⟩ := Option.isSome_iff_exists.mp hid
    have hk : w.ParentOf id p := by
      rw [Db.ParentOf, hw, if_pos rfl, hold, hp]
      rfl
    have hlinks : ∀ a b, w.ParentOf a b → (a = id ∧ b = p) ∨ v.ParentOf a b := by
      intro a b hab
      by_cases ha : a = id
      · rw [Db.ParentOf, ha, show w.parents id = some (some p) from hk] at hab
        exact .inl ⟨ha, (Option.some.inj (Option.some.inj hab)).symm⟩
      · rw [Db.ParentOf, hw, if_neg ha] at hab
        exact .inr hab
    refine ⟨fun a b hab => ?_, ?_⟩
    · rw [hsome]
      rcases hlinks a b hab with ⟨-, rfl⟩ | hab
      · exact hexists b hp hid
      · exact hfk a b hab
    · rw [Parents.acyclic_redirect_iff hacyclic hk hlinks fun a b ha hab => by
        rw [Db.ParentOf, hw, if_neg ha]
        exact hab]
      refine not_congr ⟨fun hpath => ⟨p, hp, hid, hpath⟩, ?_⟩
      rintro ⟨q, hq, -, hpath⟩
      rw [hp] at hq
      obtain rfl := Option.some.inj (Option.some.inj hq)
      exact hpath
  · -- no pointer is turned to another category
    have hlinks : ∀ a b, w.ParentOf a b → v.ParentOf a b := by
      intro a b hab
      rw [Db.ParentOf, hw] at hab
      split at hab
      · next ha =>
        obtain ⟨old, hold, hab⟩ := Option.map_eq_some_iff.mp hab
        rw [ha, Db.ParentOf, hold]
        cases hp : request.parentId with
        | none =>
          rw [hp] at hab
          exact congrArg some hab
        | some parent =>
          rw [hp] at hab
          have hparent : parent = some b := hab
          exact absurd ⟨b, by rw [hp, hparent], by rw [hold]; rfl⟩ hset
      · exact hab
    refine ⟨fun a b hab => ?_, fun _ => ?_, fun _ => hacyclic.mono hlinks⟩
    · rw [hsome]
      exact hfk a b (hlinks a b hab)
    · rintro ⟨p, hp, hid, -⟩
      exact hset ⟨p, hp, hid⟩

/-- A rejected request is not one that puts a category under itself. -/
theorem not_loops_of_error {r : CategoryRequest} {e : AppError} (h : r.run.Runs v w (.error e)) :
    ¬ r.Loops v := by
  cases r with
  | create ctx request => exact fun hloop => hloop
  | delete ctx id => exact fun hloop => hloop
  | update ctx id request =>
    rcases Prog.runs_bind_error.mp h with herror | ⟨u, _, -, hret⟩
    · obtain ⟨p, hp, hid, hnone⟩ := ItemCategoryUpdate.execute_runs_error herror
      rintro ⟨q, hq, -, hpath⟩
      rw [hp] at hq
      obtain rfl := Option.some.inj (Option.some.inj hq)
      rcases Relation.ReflTransGen.cases_head hpath with rfl | ⟨b, hb, -⟩
      · rw [hnone] at hid
        cases hid
      · rw [Db.ParentOf, hnone] at hb
        cases hb
    · cases hret.2

/-- What one request does: the parents of all categories are there, and the tree stays complete
iff the request puts no category under itself. -/
theorem step (r : CategoryRequest) {result : Except AppError Unit}
    (h : r.run.Transacts v w result) (hnew : r.NamesNoNew v w) (hfk : v.ParentsExist)
    (hv : v.IsTree) : w.ParentsExist ∧ (w.IsTree ↔ ¬ r.Loops v) := by
  have hacyclic := (Db.isTree_iff hfk).mp hv
  cases result with
  | error e =>
    obtain rfl := h.of_error
    obtain ⟨u, hruns, -⟩ := h
    exact ⟨hfk, fun _ => not_loops_of_error hruns, fun _ => hv⟩
  | ok x =>
    replace h := Prog.transacts_ok.mp h
    have hstep : w.ParentsExist ∧ (Parents.Acyclic w.ParentOf ↔ ¬ r.Loops v) := by
      cases r with
      | create ctx request =>
        obtain ⟨hw, hw'⟩ := create_step h hfk hacyclic hnew
        exact ⟨hw, fun _ hloop => hloop, fun _ => hw'⟩
      | update ctx id request => exact update_step h hfk hacyclic
      | delete ctx id =>
        obtain ⟨hw, hw'⟩ := delete_step h hfk hacyclic
        exact ⟨hw, fun _ hloop => hloop, fun _ => hw'⟩
    exact ⟨hstep.1, (Db.isTree_iff hstep.1).trans hstep.2⟩

end CategoryRequest

/-- Create, update and delete requests in any order: after each of them the categories are a tree
that the endpoint lists completely iff none of them puts a category under itself or under one that
is below it. The identifiers of new categories are not named in their own requests. -/
theorem tree_of_services {v w : Db} {xs : List (Service Db AppError Unit CategoryRequest)}
    (h : InOrder CategoryRequest.run v xs w)
    (hnew : ∀ x ∈ xs, x.request.NamesNoNew x.found x.left) (hfk : v.ParentsExist)
    (hv : v.IsTree) :
    (∀ x ∈ xs, x.left.IsTree) ↔ ∀ x ∈ xs, ¬ x.request.Loops x.found := by
  induction xs generalizing v with
  | nil => simp
  | cons x xs ih =>
    obtain ⟨rfl, hx, hxs⟩ := h
    obtain ⟨hleft, hstep⟩ := x.request.step hx (hnew x List.mem_cons_self) hfk hv
    have hrest := fun htree => ih hxs (fun y hy => hnew y (List.mem_cons_of_mem x hy)) hleft htree
    rw [List.forall_mem_cons, List.forall_mem_cons]
    constructor
    · rintro ⟨htree, hall⟩
      exact ⟨hstep.mp htree, (hrest htree).mp hall⟩
    · rintro ⟨hloop, hall⟩
      exact ⟨hstep.mpr hloop, (hrest (hstep.mpr hloop)).mpr hall⟩

instance (r : CategoryRequest) (v w : Db) : Decidable (r.NamesNoNew v w) :=
  match r with
  | .create ctx request =>
    decidable_of_iff (∀ p ∈ request.parentId, v.parents p = none → w.parents p = none)
      ⟨fun h _ _ p hr hp => h p (by cases hr; exact hp), fun h p hp => h ctx request p rfl hp⟩
  | .update _ _ _ => isTrue fun _ _ _ hr => nomatch hr
  | .delete _ _ => isTrue fun _ _ _ hr => nomatch hr

/-- Three categories, the third under the first, and the third moves. -/
def moveTo (id parent : ID) : List CategoryRequest :=
  [.create ⟨1, none, none⟩ ⟨"metal", none, none⟩, .create ⟨1, none, none⟩ ⟨"plastic", none, none⟩,
    .create ⟨1, none, none⟩ ⟨"sheet", some 100, none⟩,
    .update ⟨1, none, none⟩ id ⟨none, some (some parent), none⟩]

/-- The first category is put under the one below it: both are gone from the tree. -/
theorem moved_under_child :
    ∃ xs w, InOrder CategoryRequest.run Db.empty xs w ∧
      (∀ x ∈ xs, x.request.NamesNoNew x.found x.left) ∧ ¬ w.IsTree := by
  have hparents : (serveInOrder CategoryRequest.run (numbered 100) Db.empty
      (moveTo 100 300)).2.parents 100 = some (some 300) ∧ (serveInOrder CategoryRequest.run
        (numbered 100) Db.empty (moveTo 100 300)).2.parents 300 = some (some 100) := by
    decide +kernel
  refine ⟨_, _, inOrder_serveInOrder _ (numbered 100) _ (moveTo 100 300), by decide +kernel,
    fun htree => htree.acyclic 100 ?_⟩
  exact .tail (.single hparents.1) hparents.2

/-- The third category goes to the second: the tree stays complete. -/
theorem tree_of_services_moved :
    ∃ xs w, InOrder CategoryRequest.run Db.empty xs w ∧ w.parents 300 = some (some 200) ∧
      ∀ x ∈ xs, x.left.IsTree := by
  have hfk : Db.empty.ParentsExist := fun a b hab => by cases hab
  have htree : Db.empty.IsTree := by
    refine (Db.isTree_iff hfk).mpr fun a ha => ?_
    obtain ⟨b, hb, -⟩ := Relation.TransGen.head'_iff.mp ha
    cases hb
  refine ⟨_, _, inOrder_serveInOrder _ (numbered 100) _ (moveTo 300 200), by decide +kernel, ?_⟩
  refine (tree_of_services (inOrder_serveInOrder _ (numbered 100) _ (moveTo 300 200))
    (by decide +kernel) hfk htree).mpr ?_
  simp only [serveInOrder, moveTo, List.forall_mem_cons]
  refine ⟨fun h => h, fun h => h, fun h => h, ?_, by simp⟩
  rintro ⟨p, hp, -, hpath⟩
  obtain rfl : (200 : ID) = p := Option.some.inj (Option.some.inj hp)
  rcases Relation.ReflTransGen.cases_head hpath with he | ⟨b, hb, -⟩
  · cases he
  · -- the second category is a root
    have hroot : some (some b) = some none := hb.symm.trans (by decide +kernel)
    cases hroot

end Slab
