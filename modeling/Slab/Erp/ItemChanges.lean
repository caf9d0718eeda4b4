import Slab.Txn.Watch
import Slab.Erp.Items

/-!
# Items that several requests change

A patch of an item reads the row without a lock, merges what it was given into the columns it has
read, and then writes all of them. What other requests have committed in between is written over,
also in the columns that the patch does not mention. Where no patch meets such a change, the
committed requests on an item have been executed one after another.

## Main definitions

- `ItemRequest` — a patch or a deletion; `ItemRequest.apply` is what it should make of the columns
- `ItemRequest.MergesCurrent` — the patch writes what it would merge into the row as it is now
- `Served` — a row that a serial execution leaves
- `itemWatch` — what the rows of items guard

## Main results

- `changes_served` — along every run whose patches merge the current rows, nothing is lost
- `changes_lost` — two runs in which a patch does not: a column is lost, a deletion is undone
-/

namespace Slab

open Txn

/-- A request to change an item. -/
inductive ItemRequest where
  | update (ctx : Operator) (id : ID) (request : UpdateItemRequest)
  | delete (ctx : Operator) (id : ID)
deriving DecidableEq

namespace ItemRequest

/-- The item that it names. -/
def item : ItemRequest → ID
  | update _ id _ => id
  | delete _ id => id

def run : ItemRequest → Handler Unit
  | update ctx id request => do
    let _ ← ItemUpdate.execute ctx id request
    pure ()
  | delete ctx id => do
    let _ ← ItemDelete.execute ctx id
    pure ()

/-- What it makes of the columns of its item. -/
def apply : ItemRequest → ItemColumns → ItemColumns
  | update _ _ request, c => request.merge c
  | delete _ _, c => { c with isActive := false }

/-- Whatever the columns are, the request gives `f` of them the value `x`. -/
def Sets {τ : Type} (r : ItemRequest) (f : ItemColumns → τ) (x : τ) : Prop :=
  ∀ c, f (r.apply c) = x

/-- Where `f` of the columns is `x`, the request leaves it so. -/
def Keeps {τ : Type} (r : ItemRequest) (f : ItemColumns → τ) (x : τ) : Prop :=
  ∀ c, f c = x → f (r.apply c) = x

theorem Sets.keeps {τ : Type} {r : ItemRequest} {f : ItemColumns → τ} {x : τ}
    (h : r.Sets f x) : r.Keeps f x := fun c _ => h c

theorem delete_sets (ctx : Operator) (id : ID) :
    (delete ctx id).Sets ItemColumns.isActive false := fun _ => rfl

theorem update_keeps {ctx : Operator} {id : ID} {request : UpdateItemRequest}
    (h : request.isActive = none) (x : Bool) :
    (update ctx id request).Keeps ItemColumns.isActive x := by
  intro c hc
  change request.isActive.getD c.isActive = x
  rw [h, Option.getD_none, hc]

/-- When a patch is about to write, the columns that it does not mention are as it has read
them. -/
def MergesCurrent (r : ItemRequest) (vs : List Db) (v : Db) : Prop :=
  match r with
  | update _ id request => vs.length = 2 → ∀ read ∈ vs[1]?.bind fun u => u.items.get? id,
      ∀ row ∈ v.items.get? id, request.merge read.columns = request.merge row.columns
  | delete _ _ => True

/-- The references that a patch makes are there. -/
def Refers (r : ItemRequest) (row : ItemRow) (db : Db) : Prop :=
  match r with
  | update _ id request =>
    ItemRepository.referenceMissing id (request.merge row.columns) db = none
  | delete _ _ => True

end ItemRequest

namespace ItemRepository

variable {id j : ID} {c : ItemColumns} {db : Db}

theorem get?_setColumns_self : (setColumns id c db).items.get? id =
    (db.items.get? id).map (ItemRow.setColumns c) := by
  simp only [setColumns, Table.get?_modify_self]

theorem get?_setColumns_of_ne (h : j ≠ id) :
    (setColumns id c db).items.get? j = db.items.get? j := by
  simp only [setColumns, Table.get?_modify_of_ne h]

/-- A deletion sets one column. -/
theorem get?_deactivate_self : (deactivate id db).items.get? id =
    (db.items.get? id).map fun row => row.setColumns { row.columns with isActive := false } := by
  simp only [deactivate, Table.get?_modify_self]
  rfl

theorem get?_deactivate_of_ne (h : j ≠ id) :
    (deactivate id db).items.get? j = db.items.get? j := by
  simp only [deactivate, Table.get?_modify_of_ne h]

end ItemRepository

/-! ## One request alone -/

section Alone

variable {v w : Db} {r : ItemRequest} {row : ItemRow}

/-- A request whose item and references are there goes through, and changes its item only. -/
theorem ItemRequest.transacts_of_refers (hrow : v.items.get? r.item = some row)
    (hrefers : r.Refers row v) : ∃ w, r.run.Transacts v w (.ok ()) ∧
      w.items.get? r.item = some (row.setColumns (r.apply row.columns)) ∧
      (∀ j, j ≠ r.item → w.items.get? j = v.items.get? j) ∧
      w.itemCategories = v.itemCategories := by
  cases r with
  | update ctx id request =>
    have hget : v.items.get? id = some row := hrow
    have hafter : (ItemRepository.setColumns id (request.merge row.columns) v).items.get? id =
        some (row.setColumns (request.merge row.columns)) := by
      rw [ItemRepository.get?_setColumns_self, hget, Option.map_some]
    obtain ⟨w, hw⟩ := AuditService.record_run "item" .updated id ctx (some (.item row.toItem))
      (some (.item (row.setColumns (request.merge row.columns)).toItem))
      (ItemRepository.setColumns id (request.merge row.columns) v)
    refine ⟨w, Prog.transacts_ok.mpr ?_, ?_⟩
    · simp only [ItemRequest.run, ItemUpdate.execute, ItemPort.byId, ItemRepository.update,
        ItemRepository.writeColumns, Prog.runs_bind_ok, Prog.runs_select, Prog.runs_orFail_ok,
        Prog.runs_writeIf_ok, Prog.pure_eq, Prog.runs_ret]
      refine ⟨w, _, ⟨v, _, ⟨rfl, rfl⟩, _, _, ⟨v, _, ⟨rfl, rfl⟩, v, row.columns, ⟨rfl, ?_⟩, _, (),
        ⟨hrefers, rfl⟩, rfl, rfl⟩, _, _, ⟨rfl, rfl⟩, w, (), ?_, rfl, rfl⟩, rfl, trivial⟩
      · rw [hget, Option.map_some]
      · rw [hget, hafter]
        exact hw
    · obtain ⟨-, record, rfl⟩ := AuditService.record_runs hw
      exact ⟨hafter, fun j hj => ItemRepository.get?_setColumns_of_ne hj, rfl⟩
  | delete ctx id =>
    have hget : v.items.get? id = some row := hrow
    obtain ⟨w, hw⟩ := AuditService.record_run "item" .deleted id ctx (some (.item row.toItem)) none
      (ItemRepository.deactivate id v)
    refine ⟨w, Prog.transacts_ok.mpr ?_, ?_⟩
    · simp only [ItemRequest.run, ItemDelete.execute, ItemPort.byId, ItemRepository.delete,
        Prog.runs_bind_ok, Prog.runs_select, Prog.runs_writeReturning_ok, Prog.pure_eq,
        Prog.runs_ret]
      refine ⟨w, _, ⟨v, _, ⟨rfl, rfl⟩, _, _, ⟨trivial, rfl, rfl⟩, w, (), ?_, rfl, rfl⟩, rfl,
        trivial⟩
      rw [hget]
      exact hw
    · obtain ⟨-, record, rfl⟩ := AuditService.record_runs hw
      refine ⟨?_, fun j hj => ItemRepository.get?_deactivate_of_ne hj, rfl⟩
      exact ItemRepository.get?_deactivate_self.trans (by rw [hget]; rfl)

/-- A request that goes through makes of the columns of its item what it should. -/
theorem ItemRequest.columns_of_transacts (h : r.run.Transacts v w (.ok ())) :
    (w.items.get? r.item).map ItemRow.columns =
      (v.items.get? r.item).map fun row => r.apply row.columns := by
  cases r with
  | update ctx id request =>
    simp only [ItemRequest.run, Prog.transacts_ok, Prog.runs_bind_ok, Prog.pure_eq,
      Prog.runs_ret] at h
    obtain ⟨u, response, h, rfl, -⟩ := h
    obtain ⟨row, hrow, hw⟩ := ItemUpdate.execute_runs_ok h
    change (w.items.get? id).map ItemRow.columns =
      (v.items.get? id).map fun row => request.merge row.columns
    rw [hw, Table.get?_modify_self, hrow, Option.map_some, Option.map_some, Option.map_some,
      ItemRow.columns_setColumns]
  | delete ctx id =>
    simp only [ItemRequest.run, Prog.transacts_ok, Prog.runs_bind_ok, Prog.pure_eq,
      Prog.runs_ret] at h
    obtain ⟨u, response, h, rfl, -⟩ := h
    change (w.items.get? id).map ItemRow.columns =
      (v.items.get? id).map fun row => { row.columns with isActive := false }
    rw [ItemDelete.execute_runs_ok h, ItemRepository.get?_deactivate_self, Option.map_map]
    rfl

end Alone

/-! ## One request after another -/

/-- The requests, executed one after another, all go through and leave `w`. -/
def ServedBy (db : Db) (rs : List ItemRequest) (w : Db) : Prop :=
  ∃ xs, InOrder ItemRequest.run db xs w ∧ xs.map Service.request = rs ∧
    ∀ x ∈ xs, x.result = .ok ()

section Serial

variable {db v w : Db} {id : ID} {row : ItemRow} {rs : List ItemRequest} {r : ItemRequest}

theorem ServedBy.snoc (h : ServedBy db rs w) {u : Db} (hr : r.run.Transacts w u (.ok ())) :
    ServedBy db (rs ++ [r]) u := by
  obtain ⟨xs, hxs, rfl, hok⟩ := h
  refine ⟨_, hxs.snoc hr, by rw [List.map_append, List.map_singleton], fun x hx => ?_⟩
  rcases List.mem_append.mp hx with hx | hx
  · exact hok x hx
  · rw [List.mem_singleton.mp hx]

/-- The columns of an item after requests to change it. -/
theorem ServedBy.columns (h : ServedBy db rs w) (hid : ∀ r ∈ rs, r.item = id) :
    (w.items.get? id).map ItemRow.columns = (db.items.get? id).map fun row =>
      rs.foldl (fun c r => r.apply c) row.columns := by
  obtain ⟨xs, hxs, rfl, hok⟩ := h
  induction xs generalizing db with
  | nil =>
    obtain rfl : w = db := hxs
    rfl
  | cons x xs ih =>
    obtain ⟨rfl, hx, hxs⟩ := hxs
    have hitem : x.request.item = id := hid _ List.mem_cons_self
    rw [hok x List.mem_cons_self] at hx
    have hcolumns := ItemRequest.columns_of_transacts hx
    rw [hitem] at hcolumns
    rw [ih hxs (fun y hy => hok y (List.mem_cons_of_mem x hy))
      (fun r hr => hid r (List.mem_cons_of_mem _ hr)), List.map_cons]
    calc (x.left.items.get? id).map (fun row =>
          (xs.map Service.request).foldl (fun c r => r.apply c) row.columns)
        = ((x.left.items.get? id).map ItemRow.columns).map fun c =>
          (xs.map Service.request).foldl (fun c r => r.apply c) c := by
          rw [Option.map_map]
          rfl
      _ = _ := by
          rw [hcolumns, Option.map_map]
          rfl

/-- What a request sets is what is left, if the requests after it keep it. -/
theorem foldl_apply_of_sets {τ : Type} {f : ItemColumns → τ} {x : τ} (hr : r.Sets f x)
    {before after : List ItemRequest} (hafter : ∀ q ∈ after, q.Keeps f x) (c : ItemColumns) :
    f ((before ++ r :: after).foldl (fun c q => q.apply c) c) = x := by
  rw [List.foldl_append, List.foldl_cons]
  have hset := hr (before.foldl (fun c q => q.apply c) c)
  revert hset
  generalize r.apply (before.foldl (fun c q => q.apply c) c) = d
  intro hset
  induction after generalizing d with
  | nil => exact hset
  | cons q qs ih =>
    exact ih (fun q hq => hafter q (List.mem_cons_of_mem _ hq)) (q.apply d)
      (hafter q List.mem_cons_self d hset)

theorem ItemRepository.referenceMissing_congr {c : ItemColumns}
    (hrow : v.items.get? id = w.items.get? id) (hitems : ∀ j, v.items.has j = w.items.has j)
    (hcategories : ∀ j, v.itemCategories.has j = w.itemCategories.has j) :
    referenceMissing id c v = referenceMissing id c w := by
  unfold referenceMissing
  rw [hrow, funext hitems, funext hcategories]

theorem ItemRequest.Refers.congr (h : r.Refers row v)
    (hrow : v.items.get? r.item = w.items.get? r.item)
    (hitems : ∀ j, v.items.has j = w.items.has j)
    (hcategories : ∀ j, v.itemCategories.has j = w.itemCategories.has j) : r.Refers row w := by
  cases r with
  | update ctx id request =>
    exact (ItemRepository.referenceMissing_congr hrow hitems hcategories).symm.trans h
  | delete ctx id => trivial

/-- The requests `rs`, executed one after another, leave `row` of the item. -/
def Served (db : Db) (id : ID) (row : Option ItemRow) (rs : List ItemRequest) : Prop :=
  ∃ w, ServedBy db rs w ∧ w.items.get? id = row ∧ (∀ j, w.items.has j = db.items.has j) ∧
    ∀ j, w.itemCategories.has j = db.itemCategories.has j

theorem Served.nil (db : Db) (id : ID) : Served db id (db.items.get? id) [] :=
  ⟨db, ⟨[], rfl, rfl, fun _ h => by cases h⟩, rfl, fun _ => rfl, fun _ => rfl⟩

/-- Items are neither inserted nor deleted. -/
theorem Served.has {row : Option ItemRow} (h : Served db id row rs) :
    row.isSome = db.items.has id := by
  obtain ⟨w, -, rfl, hitems, -⟩ := h
  exact hitems id

/-- One more request is executed. -/
theorem Served.snoc (h : Served db id (some row) rs) (hid : r.item = id)
    (hrow : v.items.get? id = some row) (hitems : ∀ j, v.items.has j = db.items.has j)
    (hcategories : ∀ j, v.itemCategories.has j = db.itemCategories.has j)
    (hrefers : r.Refers row v) :
    Served db id (some (row.setColumns (r.apply row.columns))) (rs ++ [r]) := by
  subst hid
  obtain ⟨w, hw, hget, hsame, hcats⟩ := h
  obtain ⟨u, hu, hset, hothers, hcategory⟩ := ItemRequest.transacts_of_refers hget
    (hrefers.congr (hrow.trans hget.symm) (fun j => (hitems j).trans (hsame j).symm)
      fun j => (hcategories j).trans (hcats j).symm)
  refine ⟨u, hw.snoc hu, hset, fun j => ?_, fun j => by rw [hcategory, hcats]⟩
  rw [← hsame]
  unfold Table.has
  by_cases hj : j = r.item
  · rw [hj, hset, hget, Option.isSome_some, Option.isSome_some]
  · rw [hothers j hj]

end Serial

/-! ## What the rows guard -/

/-- What a row guards: the row of an item, or whether there is one. -/
inductive ItemPart where
  | item (row : Option ItemRow)
  | present (found : Bool)
  | other

def ItemPart.map (f : ItemRow → ItemRow) : ItemPart → ItemPart
  | item row => item (row.map f)
  | s => s

/-- The committed requests on an item, in the order of their commits. -/
def requestsOn (id : ID) (tr : List (Event ItemRequest Answer)) : List ItemRequest :=
  tr.filterMap fun
    | .committed r => if r.item = id then some r else none
    | .called _ _ => none

theorem requestsOn_snoc {r : ItemRequest} (tr : List (Event ItemRequest Answer)) :
    requestsOn r.item (tr ++ [.committed r]) = requestsOn r.item tr ++ [r] := by
  simp [requestsOn]

theorem item_of_mem_requestsOn {id : ID} {tr : List (Event ItemRequest Answer)}
    {r : ItemRequest} (h : r ∈ requestsOn id tr) : r.item = id := by
  obtain ⟨e, -, he⟩ := List.mem_filterMap.mp h
  cases e with
  | called q a => cases he
  | committed r' =>
    rw [Option.ite_none_right_eq_some] at he
    obtain ⟨hid, heq⟩ := he
    exact Option.some.inj heq ▸ hid

/-- The row of an item is what the committed requests on it, one after another, make of the row
in `db`. Items and categories come and go only in other requests. -/
def itemWatch (db : Db) : Watch Db Key ItemPart ItemRequest Answer where
  proj k v :=
    match k with
    | .row .items id =>
      if db.items.has id then .item (v.items.get? id) else .present (v.items.has id)
    | .row .itemCategories id => .present (v.itemCategories.has id)
    | _ => .other
  about k e :=
    match k, e with
    | .row .items id, .committed r => db.items.has id && r.item = id
    | _, _ => false
  inv k part tr :=
    match k, part with
    | .row .items id, .item row => Served db id row (requestsOn id tr)
    | .row .items id, .present found => found = db.items.has id
    | .row .itemCategories id, .present found => found = db.itemCategories.has id
    | _, _ => True
  moves _ _ _ := True
  moves_refl _ _ := trivial
  moves_trans _ _ _ _ _ _ := trivial
  pre _ _ _ := True
  assumes _ _ _ _ := True
  auto _ := false
  claims _ _ := []
  expects := ItemRequest.MergesCurrent
  claims_nil := Watch.nothing_claimed Db Key ItemRequest

namespace itemWatch

variable {db v v' : Db} {tr tr' : List (Event ItemRequest Answer)} {own : List Key}

/-- The row of an item, as what is locked. -/
abbrev itemKey (id : ID) : Key := .row .items id

theorem not_strays (k : Key) : ¬(itemWatch db).Strays k := by
  rintro ⟨r, vs, h, -⟩
  cases h

theorem proj_item {id : ID} (hid : db.items.has id = true) (x : Db) :
    (itemWatch db).proj (itemKey id) x = .item (x.items.get? id) := if_pos hid

theorem proj_absent {id : ID} (hid : db.items.has id = false) (x : Db) :
    (itemWatch db).proj (itemKey id) x = .present (x.items.has id) :=
  if_neg (Bool.eq_false_iff.mp hid)

theorem proj_congr {k : Key} {x y : Db} (hitems : ∀ id, k = itemKey id →
      x.items.get? id = y.items.get? id) (hcategories : x.itemCategories = y.itemCategories) :
    (itemWatch db).proj k x = (itemWatch db).proj k y := by
  rcases k with _ | ⟨tn, id⟩
  · rfl
  · cases tn with
    | items =>
      have hget := hitems id rfl
      cases hid : db.items.has id with
      | true => rw [proj_item hid, proj_item hid, hget]
      | false => rw [proj_absent hid, proj_absent hid, Table.has, Table.has, hget]
    | itemCategories =>
      exact congrArg (fun t : Table ItemCategory.id => ItemPart.present (t.has id)) hcategories
    | _ => rfl

/-- To deactivate an item that is not there makes no difference. -/
theorem proj_deactivate {id : ID} (hid : db.items.has id = false) (k : Key) (x : Db) :
    (itemWatch db).proj k (ItemRepository.deactivate id x) = (itemWatch db).proj k x := by
  by_cases hk : k = itemKey id
  · rw [hk, proj_absent hid, proj_absent hid, Table.has, Table.has,
      ItemRepository.get?_deactivate_self, Option.isSome_map]
  · refine proj_congr (fun j hj => ItemRepository.get?_deactivate_of_ne ?_) rfl
    rintro rfl
    exact hk hj

theorem about_called (k : Key) (q : Ask) (a : Answer q) :
    (itemWatch db).about k (.called q a) = false := by
  rcases k with _ | ⟨tn, id⟩
  · rfl
  · cases tn <;> rfl

theorem about_committed {k : Key} {r : ItemRequest}
    (h : (itemWatch db).about k (.committed r) = true) :
    k = itemKey r.item ∧ db.items.has r.item = true := by
  rcases k with _ | ⟨tn, id⟩
  · cases h
  · cases tn with
    | items =>
      rw [itemWatch, Bool.and_eq_true, decide_eq_true_eq] at h
      exact ⟨by rw [h.2], h.2 ▸ h.1⟩
    | _ => cases h

/-- The record of an item that is there is all that has been committed on it. -/
theorem requestsOn_log {id : ID} (h : db.items.has id = true)
    (tr : List (Event ItemRequest Answer)) :
    requestsOn id ((itemWatch db).log (itemKey id) tr) = requestsOn id tr := by
  unfold requestsOn Guard.log
  rw [List.filterMap_filter]
  refine List.filterMap_congr fun e _ => ?_
  cases e with
  | called q a => rfl
  | committed r =>
    change (if (db.items.has id && decide (r.item = id)) = true then _ else none) = _
    rw [h, Bool.true_and]
    by_cases hr : r.item = id <;> simp [hr]

/-- Whatever leaves items and categories alone is neutral. -/
theorem neutral {α : Type} {p : Handler α} (h : p.Preserves fun v => (v.items, v.itemCategories)) :
    (itemWatch db).toGuard.Neutral p :=
  .of_preserves h (fun _ _ _ hxy => proj_congr (fun id _ => by rw [(Prod.mk.inj hxy).1])
    (Prod.mk.inj hxy).2) (fun k q a => about_called k q a) fun _ _ _ => trivial

/-- A locked item may be written. -/
theorem item_writes {id : ID} (hid : db.items.has id = true) (hown : itemKey id ∈ own)
    {w : Db → Db} (f : ItemRow → ItemRow)
    (hself : ∀ x : Db, (w x).items.get? id = (x.items.get? id).map f)
    (hothers : ∀ (x : Db) j, j ≠ id → (w x).items.get? j = x.items.get? j)
    (hcategories : ∀ x : Db, (w x).itemCategories = x.itemCategories) :
    (itemWatch db).Writes own v tr w := by
  refine ⟨.of_part hown (ItemPart.map f) (fun x => ?_) (fun k hk x => ?_), fun _ _ => trivial⟩
  · rw [proj_item hid, proj_item hid, hself]
    rfl
  · refine proj_congr (fun j hj => hothers x j ?_) (hcategories x)
    rintro rfl
    exact hk hj

/-- What a request that has locked nothing finds. -/
theorem found (hr : (itemWatch db).Rely [] v tr v' tr') :
    (∀ j, db.items.has j = true →
      Served db j (v'.items.get? j) (requestsOn j ((itemWatch db).log (itemKey j) tr'))) ∧
      (∀ j, v'.items.has j = db.items.has j) ∧
      ∀ j, v'.itemCategories.has j = db.itemCategories.has j := by
  have hholds : ∀ k, (itemWatch db).Holds k v' tr' := fun k =>
    hr.rest k List.not_mem_nil (not_strays _)
  have hserved : ∀ j, db.items.has j = true →
      Served db j (v'.items.get? j) (requestsOn j ((itemWatch db).log (itemKey j) tr')) := by
    intro j hj
    have h := hholds (itemKey j)
    rw [Guard.Holds, proj_item hj] at h
    exact h
  refine ⟨hserved, fun j => ?_, fun j => hholds (.row .itemCategories j)⟩
  cases hj : db.items.has j with
  | true => exact (hserved j hj).has.trans hj
  | false =>
    have h := hholds (itemKey j)
    rw [Guard.Holds, proj_absent hj] at h
    exact h.trans hj

/-- A request that has written its item, and nothing of the kind since, is done. -/
theorem done_of_kept {r : ItemRequest} (hid : db.items.has r.item = true)
    (h : Served db r.item (v.items.get? r.item)
      (requestsOn r.item ((itemWatch db).log (itemKey r.item) tr) ++ [r]))
    (hkept : (itemWatch db).Kept [itemKey r.item] v tr own v' tr') :
    (itemWatch db).Done r own v' tr' := by
  refine ⟨fun k hk => ?_, fun k hk => ?_⟩
  · by_cases hkey : k = itemKey r.item
    · subst hkey
      have habout : (itemWatch db).about (itemKey r.item) (.committed r) = true := by
        simp [itemWatch, hid]
      obtain ⟨hproj, hlog⟩ := Prod.mk.inj (hkept.state_eq _ List.mem_cons_self)
      unfold Guard.Holds
      rw [Guard.log_snoc_of_about habout, hproj, hlog, proj_item hid]
      change Served db r.item (v.items.get? r.item) (requestsOn r.item (_ ++ [.committed r]))
      rw [requestsOn_snoc]
      exact h
    · have hnot : (itemWatch db).about k (.committed r) = false :=
        Bool.eq_false_iff.mpr fun h => hkey (about_committed h).1
      unfold Guard.Holds
      rw [Guard.log_snoc_of_not_about hnot]
      exact hkept.rest k hk fun hin => hkey (List.mem_singleton.mp hin)
  · rw [Watch.lasting_txn rfl, (about_committed hk).1]
    exact ⟨hkept.sub List.mem_cons_self, trivial⟩

/-- A request whose item is not there has nothing to answer for. -/
theorem done_of_absent {r : ItemRequest} (hid : db.items.has r.item = false)
    (hkept : (itemWatch db).Kept [] v tr own v' tr') : (itemWatch db).Done r own v' tr' := by
  have hnot : ∀ k, (itemWatch db).about k (.committed r) = false := fun k =>
    Bool.eq_false_iff.mpr fun h => by
      rw [(about_committed h).2] at hid
      cases hid
  refine ⟨fun k hk => ?_, .of_none hnot⟩
  unfold Guard.Holds
  rw [Guard.log_snoc_of_not_about (hnot k)]
  exact hkept.rest k hk List.not_mem_nil

/-! ## Each request among others -/

theorem update_safe (ctx : Operator) (id : ID) (request : UpdateItemRequest) :
    (itemWatch db).Safe (.update ctx id request)
      (fun _ _ => (itemWatch db).Done (.update ctx id request))
      (ItemRequest.update ctx id request).run [] [] v tr := by
  refine Watch.Safe.bind (Watch.Safe.select_bind fun v₁ tr₁ _ _ => ⟨.of_txn rfl, ?_⟩)
  refine Watch.Safe.bind (Watch.Safe.select_bind fun v₂ tr₂ hr₂ _ => ⟨.of_txn rfl, ?_⟩)
  refine Watch.Safe.orFail_bind fun current hcurrent => ?_
  obtain ⟨read, hread, rfl⟩ := Option.map_eq_some_iff.mp hcurrent
  refine Watch.Safe.writeIf_bind fun v₃ tr₃ hr₃ _ hmerges => ⟨fun _ _ => .of_txn rfl, fun hok => ?_⟩
  -- the item is there, and it was when it was read
  have hid : db.items.has id = true := by
    rw [← (found hr₂).2.1, Table.has_iff]
    exact ⟨read, hread⟩
  obtain ⟨hserved, hitems, hcategories⟩ := found hr₃
  obtain ⟨row, hrow⟩ := Table.has_iff.mp ((hitems id).trans hid)
  have hsame : request.merge read.columns = request.merge row.columns :=
    hmerges rfl read hread row hrow
  have hkeys : [] ++ lockRow .items id (v₃.items.has id) = [itemKey id] := by
    rw [(hitems id).trans hid]
    rfl
  have hlogged := hserved id hid
  rw [hrow] at hlogged
  have hnext := hlogged.snoc (r := .update ctx id request) rfl hrow hitems hcategories
    (by rw [ItemRequest.Refers, ← hsame]; exact hok)
  have hkeeps : ∀ vs own, (itemWatch db).keeps (.update ctx id request) vs own = own :=
    fun _ _ => Watch.keeps_txn rfl _ _
  simp only [hkeeps, hkeys]
  refine ⟨item_writes hid List.mem_cons_self (ItemRow.setColumns (request.merge read.columns))
    (fun x => ItemRepository.get?_setColumns_self)
    (fun x j hj => ItemRepository.get?_setColumns_of_ne hj) fun _ => rfl, .of_txn rfl, ?_⟩
  refine Watch.Safe.ret fun v₄ tr₄ hr₄ => ?_
  refine Watch.Safe.mono (Watch.Safe.neutral rfl (neutral ?_)
    ((Watch.Kept.refl _ _ _).rely hr₄)) fun _ _ _ _ _ hkept =>
      Watch.Safe.ret fun _ _ hr => done_of_kept hid ?_ (hkept.rely hr)
  · refine (Prog.preserves_select _).bind fun after => ?_
    refine Prog.Preserves.bind ?_ fun _ => Prog.preserves_ret _
    exact ifGiven_preserves _ fun before => ifGiven_preserves _ fun after =>
      (AuditService.record_preserves _ _ _ _ _ _).factor fun _ => rfl
  · change Served db id ((ItemRepository.setColumns id _ v₃).items.get? id) _
    rw [ItemRepository.get?_setColumns_self, hrow, hsame]
    exact hnext

theorem delete_safe (ctx : Operator) (id : ID) :
    (itemWatch db).Safe (.delete ctx id) (fun _ _ => (itemWatch db).Done (.delete ctx id))
      (ItemRequest.delete ctx id).run [] [] v tr := by
  refine Watch.Safe.bind (Watch.Safe.select_bind fun v₁ tr₁ _ _ => ⟨.of_txn rfl, ?_⟩)
  refine Watch.Safe.stmt_wait fun v₂ tr₂ hr₂ _ _ => ?_
  obtain ⟨hserved, hitems, hcategories⟩ := found hr₂
  have htail : ∀ deleted : Bool, Prog.Preserves (fun v : Db => (v.items, v.itemCategories)) (do
      ifGiven ((v₁.items.get? id).map ItemRow.toItem) fun before =>
        AuditService.recordDeleted "item" id ctx (.item before)
      pure { deleted := deleted } : Handler ItemDelete.DeleteItemResponse) := fun deleted => by
    refine Prog.Preserves.bind ?_ fun _ => Prog.preserves_ret _
    exact ifGiven_preserves _ fun before =>
      (AuditService.record_preserves _ _ _ _ _ _).factor fun _ => rfl
  have hkeeps : ∀ vs own, (itemWatch db).keeps (.delete ctx id) vs own = own :=
    fun _ _ => Watch.keeps_txn rfl _ _
  simp only [hkeeps]
  cases hid : db.items.has id with
  | true =>
    obtain ⟨row, hrow⟩ := Table.has_iff.mp ((hitems id).trans hid)
    have hkeys : [] ++ lockRow .items id (v₂.items.has id) = [itemKey id] := by
      rw [(hitems id).trans hid]
      rfl
    have hlogged := hserved id hid
    rw [hrow] at hlogged
    have hnext := hlogged.snoc (r := .delete ctx id) rfl hrow hitems hcategories trivial
    rw [hkeys]
    refine ⟨item_writes hid List.mem_cons_self (fun row => row.setColumns
      { row.columns with isActive := false }) (fun x => ItemRepository.get?_deactivate_self)
      (fun x j hj => ItemRepository.get?_deactivate_of_ne hj) fun _ => rfl, .of_txn rfl, ?_⟩
    refine Watch.Safe.mono (Watch.Safe.neutral rfl (neutral (htail _)) (.refl _ _ _))
      fun _ _ _ _ _ hkept => Watch.Safe.ret fun _ _ hr => done_of_kept hid ?_ (hkept.rely hr)
    change Served db id ((ItemRepository.deactivate id v₂).items.get? id) _
    rw [ItemRepository.get?_deactivate_self, hrow]
    exact hnext
  | false =>
    -- no row is found, and none is changed
    have hkeys : [] ++ lockRow .items id (v₂.items.has id) = [] := by
      rw [(hitems id).trans hid]
      rfl
    rw [hkeys]
    refine ⟨Guard.Writes.of_same (proj_deactivate hid), .of_txn rfl, ?_⟩
    exact Watch.Safe.mono (Watch.Safe.neutral rfl (neutral (htail _)) (.refl _ _ _))
      fun _ _ _ _ _ hkept => Watch.Safe.ret fun _ _ hr => done_of_absent hid (hkept.rely hr)

theorem run_safe (r : ItemRequest) :
    (itemWatch db).Safe r (fun _ _ => (itemWatch db).Done r) r.run [] [] v tr := by
  cases r with
  | update ctx id request => exact update_safe ctx id request
  | delete ctx id => exact delete_safe ctx id

theorem sound_init (db : Db) : (itemWatch db).Sound (Live.init db : Live Db Key Answer AppError
    Unit ItemRequest) := by
  refine Watch.Sound.init fun k => ?_
  rcases k with _ | ⟨tn, id⟩
  · trivial
  · cases tn with
    | items =>
      cases hid : db.items.has id with
      | true =>
        rw [Guard.Holds, proj_item hid]
        exact Served.nil db id
      | false =>
        rw [Guard.Holds, proj_absent hid]
        rfl
    | itemCategories => rfl
    | _ => trivial

end itemWatch

/-! ## Along a run -/

/-- What is committed and open among the requests that change items. -/
abbrev ItemLive := Live Db Key Answer AppError Unit ItemRequest

/-- One action among them; each of them works in a transaction. -/
def itemStep : Machine ItemLive (Action ItemRequest Answer) :=
  Live.act ItemRequest.run fun _ => false

/-- Patches merge the current rows. -/
def PatchesMergeCurrent (l : ItemLive) (a : Action ItemRequest Answer) : Prop :=
  l.Meets ItemRequest.MergesCurrent a

/-- Along every run whose patches merge the current rows, the row of an item is what the
committed requests on it leave when they are executed one after another in the order of their
commits. What one of them sets stays as long as the later ones keep it; so does a deletion, as
long as no patch mentions `is_active`. -/
theorem changes_served (db : Db) {l : ItemLive}
    (hl : Machine.Run itemStep PatchesMergeCurrent (Live.init db) l) {id : ID}
    (hid : db.items.has id = true) :
    (∃ w, ServedBy db (requestsOn id l.config.trace) w ∧
      w.items.get? id = l.config.db.items.get? id) ∧
    ∀ before r after, requestsOn id l.config.trace = before ++ r :: after →
      ∀ (τ : Type) (f : ItemColumns → τ) (x : τ), r.Sets f x → (∀ q ∈ after, q.Keeps f x) →
        ∃ row, l.config.db.items.get? id = some row ∧ f row.columns = x := by
  have hrun : ∀ r v tr, (∀ k, ¬(itemWatch db).Strays k → (itemWatch db).Holds k v tr) →
      (itemWatch db).Safe r (fun _ _ => (itemWatch db).Done r) r.run [] [] v tr :=
    fun r _ _ _ => itemWatch.run_safe r
  have hok : ∀ l a, PatchesMergeCurrent l a → (itemWatch db).Allows l a := fun l a h =>
    ⟨h, Watch.apart_of_no_strays itemWatch.not_strays l a,
      Watch.unbroken_of_no_strays itemWatch.not_strays l a⟩
  have hsound : (itemWatch db).Sound l := (itemWatch.sound_init db).run hrun hok hl
  have hholds := hsound.holds (itemWatch.itemKey id) fun _ _ _ _ => List.not_mem_nil
  rw [Guard.Holds, itemWatch.proj_item hid] at hholds
  change Served db id _ (requestsOn id _) at hholds
  rw [itemWatch.requestsOn_log hid] at hholds
  obtain ⟨w, hw, hrow, -⟩ := hholds
  refine ⟨⟨w, hw, hrow⟩, fun before r after heq τ f x hr hafter => ?_⟩
  obtain ⟨row₀, hrow₀⟩ := Table.has_iff.mp hid
  have hcolumns := hw.columns fun r hr => item_of_mem_requestsOn hr
  rw [hrow, hrow₀, Option.map_some] at hcolumns
  obtain ⟨row, hget, hlast⟩ := Option.map_eq_some_iff.mp hcolumns
  refine ⟨row, hget, ?_⟩
  rw [hlast, heq]
  exact foldl_apply_of_sets hr hafter _

/-! ## Patches that meet, and patches that do not -/

section Examples

instance (r : ItemRequest) (vs : List Db) (v : Db) : Decidable (r.MergesCurrent vs v) :=
  match r with
  | .update _ id request => inferInstanceAs (Decidable (vs.length = 2 →
      ∀ read ∈ vs[1]?.bind fun u => u.items.get? id, ∀ row ∈ v.items.get? id,
        request.merge read.columns = request.merge row.columns))
  | .delete _ _ => isTrue trivial

/-- A database with one item. -/
private def catalogued : Db :=
  { Db.empty with
    items := Table.empty.insert {
      id := 1, code := "RAW-000001", name := "A", categoryId := none, itemType := 1
      baseUnit := "kg", parentItemId := none, spec := none, isActive := true, reorderPoint := 0
      safetyStock := 0, version := 1 } }

private def editor : Operator := { operatorId := 9, ip := none, userAgent := none }

private def nothing : UpdateItemRequest :=
  { name := none, categoryId := none, baseUnit := none, parentItemId := none, spec := none
    isActive := none, reorderPoint := none, safetyStock := none }

private def rename : ItemRequest := .update editor 1 { nothing with name := some "B" }

private def specify : ItemRequest := .update editor 1 { nothing with spec := some (some "S") }

private def turn (i : ℕ) : Action ItemRequest Answer := .step i (numbered 100 0)

private def remove : ItemRequest := .delete editor 1

/-- The first request executes `n` statements, the second one is served, the first one goes on. -/
private def around (n : ℕ) (r s : ItemRequest) : List (Action ItemRequest Answer) :=
  [.start r] ++ List.replicate n (turn 0) ++ [.start s] ++
    List.replicate (if s = remove then 5 else 7) (turn 1) ++ List.replicate (7 - n) (turn 0)

private def mergesCurrent (r : ItemRequest) (vs : List Db) (v : Db) : Bool :=
  r.MergesCurrent vs v

/-- The item is deleted before the patch reads what it merges into. -/
private theorem removed_play :
    (itemStep.play (fun l a => l.meets mergesCurrent a) (Live.init catalogued)
      (around 1 rename remove)).map (fun l => requestsOn 1 l.config.trace) =
      some [remove, rename] := by
  decide +kernel

theorem changes_served_removed : ∃ l : ItemLive,
    requestsOn 1 l.config.trace = [remove, rename] ∧
      ∃ row, l.config.db.items.get? 1 = some row ∧ row.columns.isActive = false := by
  obtain ⟨l, hl, h⟩ := Option.map_eq_some_iff.mp removed_play
  have hrun : Machine.Run itemStep PatchesMergeCurrent (Live.init catalogued) l :=
    .of_play (fun _ _ h => Live.meets_of_test (fun _ _ _ => of_decide_eq_true) h) .refl hl
  refine ⟨l, h, (changes_served catalogued hrun (by decide +kernel)).2 [] remove [rename] h Bool
    ItemColumns.isActive false (ItemRequest.delete_sets _ _) fun q hq => ?_⟩
  obtain rfl := List.mem_singleton.mp hq
  exact ItemRequest.update_keeps rfl false

private theorem specified_play :
    (itemStep.play (fun _ _ => true) (Live.init catalogued) (around 2 rename specify)).map
      (fun l => (requestsOn 1 l.config.trace,
        (l.config.db.items.get? 1).map fun row => row.columns.spec)) =
      some ([specify, rename], some none) := by
  decide +kernel

private theorem undone_play :
    (itemStep.play (fun _ _ => true) (Live.init catalogued) (around 2 rename remove)).map
      (fun l => (requestsOn 1 l.config.trace,
        (l.config.db.items.get? 1).map fun row => row.columns.isActive)) =
      some ([remove, rename], some true) := by
  decide +kernel

/-- Where the patch has read the row before the other request is committed, it writes over what
the other has written: a column that it does not mention, which no serial execution of the two
would have left as it is, and a deletion. -/
theorem changes_lost :
    (∃ l : ItemLive, Machine.Run itemStep (fun _ _ => True) (Live.init catalogued) l ∧
      requestsOn 1 l.config.trace = [specify, rename] ∧
      ∀ rs w, rs.Perm [specify, rename] → ServedBy catalogued rs w →
        w.items.get? 1 ≠ l.config.db.items.get? 1) ∧
    ∃ l : ItemLive, Machine.Run itemStep (fun _ _ => True) (Live.init catalogued) l ∧
      requestsOn 1 l.config.trace = [remove, rename] ∧
      (l.config.db.items.get? 1).map (fun row => row.columns.isActive) = some true := by
  constructor
  · obtain ⟨l, hl, h⟩ := Option.map_eq_some_iff.mp specified_play
    obtain ⟨htrace, hspec⟩ := Prod.mk.inj h
    refine ⟨l, .of_play (fun _ _ _ => trivial) .refl hl, htrace, fun rs w hperm hw heq => ?_⟩
    have hid : ∀ r ∈ rs, r.item = 1 := fun r hr => by
      rcases List.mem_pair.mp (hperm.mem_iff.mp hr) with rfl | rfl <;> rfl
    have hcolumns := hw.columns hid
    -- executed in any order, the two leave the new value
    have hlast : (w.items.get? 1).map (fun row => row.columns.spec) = some (some "S") := by
      obtain ⟨before, after, rfl⟩ := List.append_of_mem (hperm.mem_iff.mpr List.mem_cons_self)
      have hkeeps : ∀ q ∈ after, q.Keeps ItemColumns.spec (some "S") := fun q hq => by
        have hin := hperm.mem_iff.mp (List.mem_append_right _ (List.mem_cons_of_mem specify hq))
        rcases List.mem_pair.mp hin with rfl | rfl
        · exact ItemRequest.Sets.keeps fun _ => rfl
        · exact fun _ hc => hc
      obtain ⟨row, hrow, heq⟩ := Option.map_eq_some_iff.mp hcolumns
      rw [hrow, Option.map_some, heq]
      exact congrArg some (foldl_apply_of_sets (fun _ => rfl) hkeeps _)
    rw [heq, hspec] at hlast
    cases hlast
  · obtain ⟨l, hl, h⟩ := Option.map_eq_some_iff.mp undone_play
    obtain ⟨htrace, hactive⟩ := Prod.mk.inj h
    exact ⟨l, .of_play (fun _ _ _ => trivial) .refl hl, htrace, hactive⟩

end Examples

end Slab
