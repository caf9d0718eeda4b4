import Slab.Erp.Services
import Slab.Txn.TwoPhase

/-!
# The two-phase protocol on the ERP tables

What it takes for the statements of the handlers to follow the protocol: insertions of rows with
identifiers of their own, locked reads by primary key, updates of locked rows, and reads of columns
that never change.

## Main definitions

- `Content`, `Db.entry` — the rows of the tables that these handlers use
- `rowLocks` — the protocol: the customer and the supplier of an order stay
- `Slot` — one table with its rows
- `Within` — handlers that follow the protocol when they own a row

## Main results

- `Slot.Lawful.insert`, `Slot.Readable.lock`, `Slot.Readable.read`, `Slot.Readable.update` — the
  statements
- `Slot.Readable.begins` — handlers that begin with the lock of a row
-/

namespace Slab

open Txn

/-- The rows that these handlers look at; of a line only that it is stored. -/
inductive Content where
  | salesOrder (r : SalesOrder)
  | purchaseOrder (r : PurchaseOrder)
  | salesInvoice (r : SalesInvoiceRow)
  | purchaseInvoice (r : PurchaseInvoiceRow)
  | payment (r : Payment)
  | purchaseReturn (r : PurchaseReturnRow)
  | stockTransfer (r : StockTransfer)
  | inventoryCheck (r : InventoryCheck)
  | bom (r : Bom)
  | inspectionTemplate (r : InspectionTemplate)
  | inspectionOrder (r : InspectionOrder)
  | workOrder (r : WorkOrder)
  | line
deriving DecidableEq

/-- The columns that are read without a lock: the customer or supplier of an order. -/
def Content.party : Content → Option ID
  | salesOrder r => some r.customerId
  | purchaseOrder r => some r.supplierId
  | _ => none

/-- The row of a key. -/
def Db.entry (db : Db) : Key → Option Content
  | .row .salesOrders id => (db.salesOrders.get? id).map .salesOrder
  | .row .salesOrderLines id => (db.salesOrderLines.get? id).map fun _ => .line
  | .row .purchaseOrders id => (db.purchaseOrders.get? id).map .purchaseOrder
  | .row .purchaseOrderLines id => (db.purchaseOrderLines.get? id).map fun _ => .line
  | .row .salesInvoices id => (db.salesInvoices.get? id).map .salesInvoice
  | .row .purchaseInvoices id => (db.purchaseInvoices.get? id).map .purchaseInvoice
  | .row .payments id => (db.payments.get? id).map .payment
  | .row .purchaseReturns id => (db.purchaseReturns.get? id).map .purchaseReturn
  | .row .purchaseReturnLines id => (db.purchaseReturnLines.get? id).map fun _ => .line
  | .row .purchaseReceiptLines id => (db.purchaseReceiptLines.get? id).map fun _ => .line
  | .row .stockTransfers id => (db.stockTransfers.get? id).map .stockTransfer
  | .row .stockTransferItems id => (db.stockTransferItems.get? id).map fun _ => .line
  | .row .inventoryChecks id => (db.inventoryChecks.get? id).map .inventoryCheck
  | .row .boms id => (db.boms.get? id).map .bom
  | .row .bomItems id => (db.bomItems.get? id).map fun _ => .line
  | .row .inspectionTemplates id => (db.inspectionTemplates.get? id).map .inspectionTemplate
  | .row .inspectionTemplateItems id => (db.inspectionTemplateItems.get? id).map fun _ => .line
  | .row .inspectionOrders id => (db.inspectionOrders.get? id).map .inspectionOrder
  | .row .inspectionResults id => (db.inspectionResults.get? id).map fun _ => .line
  | .row .workOrders id => (db.workOrders.get? id).map .workOrder
  | _ => none

/-- A fresh identifier is reserved in every table. -/
def reservesId : (q : Ask) → Answer q → Key → Prop
  | .newId, id, .row _ j => j = id
  | _, _, _ => False

/-- Rows are not removed, and orders keep their customers and suppliers. -/
def rowLocks : TwoPhase Db Key (Option Content) Answer where
  part k db := db.entry k
  stays s t := ∀ a, s = some a → ∃ b, t = some b ∧ b.party = a.party
  stays_refl _ a h := ⟨a, h, rfl⟩
  stays_trans _ _ _ h h' a ha := by
    obtain ⟨b, hb, hab⟩ := h a ha
    obtain ⟨c, hc, hbc⟩ := h' b hb
    exact ⟨c, hc, hbc.trans hab⟩
  present s := s.isSome = true
  reserves := reservesId

/-- The protocol of a handler, from where it owns `own` and `new` is reserved for it. -/
abbrev FollowsLocks {α : Type} (p : Handler α) (post : α → List Key → (Key → Prop) → Prop)
    (own : List Key) (new : Key → Prop) : Prop :=
  rowLocks.Follows post p own new

/-- What the database accepts from a transaction that owns `own`, it goes on to accept. -/
def Lasting (own : List Key) (refusal : Db → Option AppError) : Prop :=
  ∀ v v', rowLocks.Agree own v v' → refusal v = none → refusal v' = none

theorem Lasting.or {own : List Key} {f g : Db → Option AppError} (hf : Lasting own f)
    (hg : Lasting own g) : Lasting own fun db => (f db).or (g db) := by
  intro v v' hv hnone
  obtain ⟨hfv, hgv⟩ := Option.or_eq_none_iff.mp hnone
  exact Option.or_eq_none_iff.mpr ⟨hf v v' hv hfv, hg v v' hv hgv⟩

/-! ## Tables -/

/-- A table with its name, and how its rows are seen. -/
structure Slot (ρ : Type) where
  name : TableName
  key : ρ → ID
  get : Db → Table key
  set : Table key → Db → Db
  wrap : ρ → Content

namespace Slot

variable {ρ : Type}

/-- The slot is a table of the database. -/
structure Lawful (S : Slot ρ) : Prop where
  entry_row : ∀ db id, db.entry (.row S.name id) = ((S.get db).get? id).map S.wrap
  get_set : ∀ t db, S.get (S.set t db) = t
  entry_set : ∀ t db k, (∀ id, k ≠ .row S.name id) → (S.set t db).entry k = db.entry k
  logs_set : ∀ t db, (S.set t db).auditLogs = db.auditLogs

/-- The row can be told from how it is seen. -/
structure Readable (S : Slot ρ) : Prop extends S.Lawful where
  inj : ∀ r s, S.wrap r = S.wrap s → r = s

variable {S : Slot ρ} {own : List Key} {new : Key → Prop} {α β : Type}
  {post : β → List Key → (Key → Prop) → Prop}

/-- An inserted row changes its own entry only. -/
theorem Lawful.writes_insert (hS : S.Lawful) (row : ρ) (h : .row S.name (S.key row) ∈ own) :
    rowLocks.Writes own fun db => S.set ((S.get db).insert row) db := by
  have hentry : ∀ x : Db, (S.set ((S.get x).insert row) x).entry (.row S.name (S.key row)) =
      some ((x.entry (.row S.name (S.key row))).getD (S.wrap row)) := by
    intro x
    rw [hS.entry_row, hS.get_set, hS.entry_row]
    cases hx : (S.get x).get? (S.key row) with
    | none => rw [Table.get?_insert_self hx]; rfl
    | some r => rw [Table.get?_insert_of_some hx]; rfl
  refine TwoPhase.Writes.of_part h (fun e => some (e.getD (S.wrap row))) hentry
    (fun k hk x => ?_) fun x a ha => ⟨a, ?_, rfl⟩
  · show (S.set _ x).entry k = x.entry k
    by_cases hname : ∃ id, k = .row S.name id
    · obtain ⟨id, rfl⟩ := hname
      have hne : S.key row ≠ id := fun he => hk (by rw [he])
      rw [hS.entry_row, hS.get_set, hS.entry_row, Table.get?_insert_of_ne hne]
    · exact hS.entry_set _ x k fun id he => hname ⟨id, he⟩
  · have hx : x.entry (.row S.name (S.key row)) = some a := ha
    show (S.set _ x).entry _ = some a
    rw [hentry, hx]
    rfl

/-- A modified row changes its own entry only. -/
theorem Readable.writes_modify (hS : S.Readable) {id : ID} {f : ρ → ρ}
    (hf : ∀ r, S.key (f r) = S.key r) (hparty : ∀ r, (S.wrap (f r)).party = (S.wrap r).party)
    (h : .row S.name id ∈ own) :
    rowLocks.Writes own fun db => S.set ((S.get db).modify id f hf) db := by
  classical
  have hentry : ∀ x : Db, (S.set ((S.get x).modify id f hf) x).entry (.row S.name id) =
      ((S.get x).get? id).map fun r => S.wrap (f r) := by
    intro x
    rw [hS.entry_row, hS.get_set, Table.get?_modify_self, Option.map_map]
    rfl
  have hother : ∀ k, k ≠ .row S.name id → ∀ x : Db,
      (S.set ((S.get x).modify id f hf) x).entry k = x.entry k := by
    intro k hk x
    by_cases hname : ∃ j, k = .row S.name j
    · obtain ⟨j, rfl⟩ := hname
      have hne : j ≠ id := fun he => hk (by rw [he])
      rw [hS.entry_row, hS.get_set, hS.entry_row, Table.get?_modify_of_ne hne]
    · exact hS.entry_set _ x k fun j he => hname ⟨j, he⟩
  refine ⟨fun k hk x => hother k (fun he => hk (he ▸ h)) x, fun x y hxy k hk => ?_,
    fun k _ x a ha => ?_⟩
  · show (S.set _ x).entry k = (S.set _ y).entry k
    by_cases he : k = .row S.name id
    · have hrow : ((S.get x).get? id).map S.wrap = ((S.get y).get? id).map S.wrap := by
        rw [← hS.entry_row, ← hS.entry_row]
        exact hxy _ h
      have hget : (S.get x).get? id = (S.get y).get? id :=
        Option.map_injective (fun _ _ => hS.inj _ _) hrow
      rw [he, hentry, hentry, hget]
    · rw [hother k he, hother k he]
      exact hxy k hk
  · show ∃ b, (S.set _ x).entry k = some b ∧ b.party = a.party
    by_cases he : k = .row S.name id
    · subst he
      have hx : x.entry (.row S.name id) = some a := ha
      rw [hS.entry_row] at hx
      obtain ⟨r, hr, rfl⟩ := Option.map_eq_some_iff.mp hx
      exact ⟨S.wrap (f r), by rw [hentry, hr]; rfl, hparty r⟩
    · exact ⟨a, by rw [hother k he]; exact ha, rfl⟩

/-- Where the entry is the same, so is the row. -/
theorem Readable.get_eq (hS : S.Readable) {id : ID} {x y : Db}
    (h : x.entry (.row S.name id) = y.entry (.row S.name id)) :
    (S.get x).get? id = (S.get y).get? id := by
  rw [hS.entry_row, hS.entry_row] at h
  exact Option.map_injective (fun _ _ => hS.inj _ _) h

/-- What refers to a row goes on to do so. -/
theorem Lawful.has_of_stays (hS : S.Lawful) {id : ID} {x y : Db}
    (h : rowLocks.stays (x.entry (.row S.name id)) (y.entry (.row S.name id)))
    (hx : (S.get x).has id = true) : (S.get y).has id = true := by
  obtain ⟨r, hr⟩ := Table.has_iff.mp hx
  obtain ⟨b, hb, -⟩ := h (S.wrap r) (by rw [hS.entry_row, hr]; rfl)
  rw [hS.entry_row] at hb
  obtain ⟨s, hs, -⟩ := Option.map_eq_some_iff.mp hb
  exact Table.has_iff.mpr ⟨s, hs⟩

/-- Whether a row is there is the same where its entry is. -/
theorem Lawful.has_eq (hS : S.Lawful) {id : ID} {x y : Db}
    (h : x.entry (.row S.name id) = y.entry (.row S.name id)) :
    (S.get x).has id = (S.get y).has id := by
  have hsome : ∀ db : Db, (S.get db).has id = (db.entry (.row S.name id)).isSome := by
    intro db
    rw [hS.entry_row, Option.isSome_map]
    rfl
  rw [hsome, hsome, h]

/-- The identifier of a row that is owned is taken or not, whatever the others do. -/
theorem Lawful.lasting_unique (hS : S.Lawful) {id : ID} (h : .row S.name id ∈ own) :
    Lasting own fun db => unique ((S.get db).has id) := by
  intro v v' hv hnone
  show unique _ = none
  rw [← hS.has_eq (hv.same _ h)]
  exact hnone

theorem Lawful.lasting_references (hS : S.Lawful) (id : ID) :
    Lasting own fun db => references ((S.get db).has id) := by
  intro v v' hv hnone
  exact references_eq_none.mpr (hS.has_of_stays (hv.stays _) (references_eq_none.mp hnone))

/-! ## Statements -/

/-- The insertion of a row under a fresh identifier. -/
theorem Lawful.insert (hS : S.Lawful) (row : ρ) {refusal : Db → Option AppError}
    {f : Unit → Handler β} (hnew : new (.row S.name (S.key row)))
    (hrefusal : Lasting (own ++ [.row S.name (S.key row)]) refusal)
    (h : ∀ own', own ⊆ own' → .row S.name (S.key row) ∈ own' →
      FollowsLocks (f ()) post own' new) :
    FollowsLocks (Prog.insert [.row S.name (S.key row)] refusal
      (fun db => S.set ((S.get db).insert row) db) >>= f) post own new := by
  have hmem : .row S.name (S.key row) ∈ own ++ [.row S.name (S.key row)] :=
    List.mem_append_right _ (List.mem_singleton_self _)
  refine TwoPhase.Follows.insert_bind (fun k hk => ?_) hrefusal (hS.writes_insert row hmem)
    (h _ (List.subset_append_left _ _) hmem)
  rw [List.mem_singleton.mp hk]
  exact hnew

/-- The same when only the identifier can be taken. -/
theorem Lawful.insertRow (hS : S.Lawful) (row : ρ) {f : Unit → Handler β}
    (hnew : new (.row S.name (S.key row)))
    (h : ∀ own', own ⊆ own' → .row S.name (S.key row) ∈ own' →
      FollowsLocks (f ()) post own' new) :
    FollowsLocks (Slab.insertRow S.name (S.key row) (fun db => (S.get db).has (S.key row))
      (fun db => S.set ((S.get db).insert row) db) >>= f) post own new :=
  hS.insert row hnew
    (hS.lasting_unique (List.mem_append_right _ (List.mem_singleton_self _))) h

/-- The locked read of a row, as the first lock or again. -/
theorem Readable.lock (hS : S.Readable) {id : ID} {e : AppError}
    (hown : own = [] ∨ .row S.name id ∈ own) :
    FollowsLocks (Prog.selectForUpdate (fun db => lockRow S.name id ((S.get db).has id))
      (fun db => (S.get db).get? id) >>= fun x => Prog.orFail x e)
      (fun _ own' _ => .row S.name id ∈ own') own new := by
  refine TwoPhase.Follows.lock_orFail (fun v k hk => ?_) (fun v v' a hv ha => ?_) fun v a ha => ?_
  · cases hhas : (S.get v).has id with
    | false =>
      rw [hhas] at hk
      exact absurd hk List.not_mem_nil
    | true =>
      rw [hhas] at hk
      obtain rfl := List.mem_singleton.mp hk
      rcases hown with rfl | hown
      · refine .first ?_
        show (v.entry _).isSome = true
        rw [hS.entry_row, Option.isSome_map]
        exact hhas
      · exact .of_mem hown
  · have hhas : (S.get v).has id = true := Table.has_iff.mpr ⟨a, ha⟩
    have hget := hS.get_eq (hv.same (.row S.name id) (by rw [hhas]; simp [lockRow, lockIf]))
    exact ⟨by simp only [Table.has, hget], by rw [← hget, ha]⟩
  · have hhas : (S.get v).has id = true := Table.has_iff.mpr ⟨a, ha⟩
    rw [hhas]
    simp [lockRow, lockIf]

/-- The read of a row that is locked. -/
theorem Readable.read (hS : S.Readable) {id : ID} {e : AppError} {g : ρ → Handler β}
    (hown : .row S.name id ∈ own) (h : ∀ r, FollowsLocks (g r) post own new) :
    FollowsLocks (Prog.select (fun db => (S.get db).get? id) >>= fun x => Prog.orFail x e >>= g)
      post own new := by
  refine TwoPhase.Follows.select_orFail_bind (fun v v' a hv ha => ⟨a, ?_, rfl⟩) h
  rw [← hS.get_eq (hv.same _ hown), ha]

/-- The read of a row for what stays. -/
theorem Lawful.readParty (hS : S.Lawful) {id : ID} {e : AppError} {g : ρ → Handler β}
    (hg : ∀ r s, (S.wrap r).party = (S.wrap s).party → g r = g s)
    (h : ∀ r, FollowsLocks (g r) post own new) :
    FollowsLocks (Prog.select (fun db => (S.get db).get? id) >>= fun x => Prog.orFail x e >>= g)
      post own new := by
  refine TwoPhase.Follows.select_orFail_bind (fun v v' a hv ha => ?_) h
  obtain ⟨b, hb, hparty⟩ := hv.stays (.row S.name id) (S.wrap a) (by
    show v.entry _ = _
    rw [hS.entry_row, ha]
    rfl)
  have hb' : v'.entry (.row S.name id) = some b := hb
  rw [hS.entry_row] at hb'
  obtain ⟨r, hr, rfl⟩ := Option.map_eq_some_iff.mp hb'
  exact ⟨r, hr, hg r a hparty⟩

/-- The update of a row that is locked. -/
theorem Readable.update (hS : S.Readable) {id : ID} {f : ρ → ρ} (hf : ∀ r, S.key (f r) = S.key r)
    (hparty : ∀ r, (S.wrap (f r)).party = (S.wrap r).party) {g : Unit → Handler β}
    (hown : .row S.name id ∈ own)
    (h : ∀ own', own ⊆ own' → FollowsLocks (g ()) post own' new) :
    FollowsLocks (Prog.update (fun db => lockRow S.name id ((S.get db).has id))
      (fun db => S.set ((S.get db).modify id f hf) db) >>= g) post own new := by
  refine TwoPhase.Follows.update_bind (fun v k hk => ?_) (fun v v' hv => ?_)
    (hS.writes_modify hf hparty hown) h
  · cases hhas : (S.get v).has id with
    | false =>
      rw [hhas] at hk
      exact absurd hk List.not_mem_nil
    | true =>
      rw [hhas] at hk
      rwa [List.mem_singleton.mp hk]
  · rw [hS.has_eq (hv.same _ hown)]

end Slot

/-! ## Programs that own a row -/

/-- The handler follows the protocol when it owns `k`. -/
def Within (k : Key) {α : Type} (p : Handler α) : Prop :=
  ∀ own new, k ∈ own → FollowsLocks p (fun _ _ _ => True) own new

namespace Within

variable {k : Key} {α β : Type}

theorem follows {p : Handler α} (h : Within k p) {own : List Key} {new : Key → Prop}
    (hk : k ∈ own) : FollowsLocks p (fun _ _ _ => True) own new := h own new hk

theorem bind {p : Handler α} {f : α → Handler β} (hp : Within k p) (hf : ∀ a, Within k (f a)) :
    Within k (p >>= f) :=
  fun own new hk => (hp own new hk).bind fun a own' new' hsub _ _ => hf a own' new' (hsub hk)

theorem ret (a : α) : Within k (Prog.ret a : Handler α) := fun _ _ _ => trivial

theorem ask (q : Ask) : Within k (Slab.ask q) := fun _ _ _ _ => trivial

theorem ensure (c : Bool) (e : AppError) : Within k (Prog.ensure c e : Handler Unit) := by
  intro own new _
  cases c <;> exact trivial

theorem ofExcept (x : Except AppError α) : Within k (Prog.ofExcept x : Handler α) := by
  intro own new _
  cases x <;> exact trivial

variable {ρ : Type} {S : Slot ρ} {id : ID}

/-- The row is locked once more. -/
theorem lock (hS : S.Readable) (e : AppError) : Within (.row S.name id)
    (Prog.selectForUpdate (fun db => lockRow S.name id ((S.get db).has id))
      (fun db => (S.get db).get? id) >>= fun x => Prog.orFail x e) :=
  fun _ _ hk => (hS.lock (.inr hk)).mono fun _ _ _ _ => trivial

/-- The row is read back. -/
theorem read (hS : S.Readable) (e : AppError) {g : ρ → Handler β}
    (h : ∀ r, Within (.row S.name id) (g r)) : Within (.row S.name id)
      (Prog.select (fun db => (S.get db).get? id) >>= fun x => Prog.orFail x e >>= g) :=
  fun own new hk => hS.read hk fun r => h r own new hk

/-- The row is updated. -/
theorem update (hS : S.Readable) {f : ρ → ρ} (hf : ∀ r, S.key (f r) = S.key r)
    (hparty : ∀ r, (S.wrap (f r)).party = (S.wrap r).party) : Within (.row S.name id)
      (Prog.update (fun db => lockRow S.name id ((S.get db).has id))
        fun db => S.set ((S.get db).modify id f hf) db) := by
  intro own new hk
  rw [← Prog.bind_ret (Prog.update _ _)]
  exact hS.update hf hparty hk fun _ _ => trivial

/-- Rows that the document has are added, each under an identifier that is asked for. -/
theorem insertFresh (hS : S.Lawful) {ι : Type} (xs : List ι) (row : ID → ι → ρ)
    (hid : ∀ id x, S.key (row id x) = id) (refusal : ID → ι → Db → Option AppError)
    (hrefusal : ∀ id x own, .row S.name (S.key (row id x)) ∈ own → Lasting own (refusal id x)) :
    Within k (Prog.forEach xs fun x => Slab.ask .newId >>= fun id =>
      Prog.insert [.row S.name (S.key (row id x))] (refusal id x)
        fun db => S.set ((S.get db).insert (row id x)) db) := by
  intro own new hk
  refine (TwoPhase.Follows.forEach (I := fun own _ => k ∈ own) hk fun x _ own new hk => ?_).mono
    fun _ _ _ _ => trivial
  refine TwoPhase.Follows.ask_bind fun id => ?_
  rw [← Prog.bind_ret (Prog.insert _ _ _)]
  refine hS.insert (row id x) (.inr (hid id x)) ?_ fun own' hsub _ => hsub hk
  exact hrefusal id x _ (List.mem_append_right _ (List.mem_singleton_self _))

end Within

/-- A handler that locks a row first, and goes on. -/
theorem Slot.Readable.lock_bind {ρ β : Type} {S : Slot ρ} (hS : S.Readable) {id : ID}
    {e : AppError} {f : ρ → Handler β} {post : β → List Key → (Key → Prop) → Prop}
    (h : ∀ r own new, .row S.name id ∈ own → FollowsLocks (f r) post own new) :
    FollowsLocks ((Prog.selectForUpdate (fun db => lockRow S.name id ((S.get db).has id))
      (fun db => (S.get db).get? id) >>= fun x => Prog.orFail x e) >>= f) post [] fun _ => False :=
  (hS.lock (.inl rfl)).bind fun r own new _ _ hk => h r own new hk

/-- The same with what follows the protocol from there on. -/
theorem Slot.Readable.begins {ρ β : Type} {S : Slot ρ} (hS : S.Readable) {id : ID} {e : AppError}
    {f : ρ → Handler β} (h : ∀ r, Within (.row S.name id) (f r)) :
    FollowsLocks ((Prog.selectForUpdate (fun db => lockRow S.name id ((S.get db).has id))
      (fun db => (S.get db).get? id) >>= fun x => Prog.orFail x e) >>= f) (fun _ _ _ => True) []
      fun _ => False :=
  hS.lock_bind fun r own new hk => h r own new hk

/-! ## Services -/

theorem entry_audit (db : Db) (logs : List AuditLog) (k : Key) :
    ({ db with auditLogs := logs } : Db).entry k = db.entry k := by
  rcases k with _ | ⟨tn, id⟩
  · rfl
  · cases tn <;> rfl

theorem Within.record {k : Key} (entity : String) (action : AuditAction) (entityId : ID)
    (operator : Operator) (before after : Option Snapshot) :
    Within k (AuditService.record entity action entityId operator before after) := by
  intro own new _ id
  refine ⟨fun _ => [], rfl, fun v => ⟨fun k hk => absurd hk List.not_mem_nil, .inr ⟨?_, ?_, ?_⟩⟩⟩
  · exact .of_same fun k x => entry_audit x _ k
  · exact fun v' _ => ⟨rfl, rfl, rfl⟩
  · exact trivial

theorem nextNumber_follows (seqName docPrefix : String) {own : List Key} {new : Key → Prop} :
    FollowsLocks (DocNumberer.nextNumber seqName docPrefix) (fun _ own' _ => own' = own) own new :=
  fun _ _ => rfl

theorem Within.nextNumber {k : Key} (seqName docPrefix : String) :
    Within k (DocNumberer.nextNumber seqName docPrefix) := fun _ _ _ _ _ => trivial

/-! ## The tables of the database -/

/-- Entries of inventories are not kept. -/
theorem entry_set_of_rows {name : TableName} {v w : Db}
    (h : ∀ tn id, tn ≠ name → w.entry (.row tn id) = v.entry (.row tn id)) (k : Key)
    (hk : ∀ id, k ≠ .row name id) : w.entry k = v.entry k := by
  cases k with
  | inventory item warehouse => rfl
  | row tn id => exact h tn id fun htn => hk id (congrArg (Key.row · id) htn)

def salesOrderSlot : Slot SalesOrder where
  name := .salesOrders
  key := SalesOrder.id
  get := Db.salesOrders
  set t db := { db with salesOrders := t }
  wrap := .salesOrder

theorem salesOrderSlot_readable : salesOrderSlot.Readable where
  entry_row _ _ := rfl
  get_set _ _ := rfl
  entry_set _ _ := entry_set_of_rows fun tn _ h => by
    cases tn <;> first | rfl | exact absurd rfl h
  logs_set _ _ := rfl
  inj _ _ := Content.salesOrder.inj

def salesOrderLineSlot : Slot SalesOrderLine where
  name := .salesOrderLines
  key := SalesOrderLine.id
  get := Db.salesOrderLines
  set t db := { db with salesOrderLines := t }
  wrap _ := .line

theorem salesOrderLineSlot_lawful : salesOrderLineSlot.Lawful where
  entry_row _ _ := rfl
  get_set _ _ := rfl
  entry_set _ _ := entry_set_of_rows fun tn _ h => by
    cases tn <;> first | rfl | exact absurd rfl h
  logs_set _ _ := rfl

def purchaseOrderSlot : Slot PurchaseOrder where
  name := .purchaseOrders
  key := PurchaseOrder.id
  get := Db.purchaseOrders
  set t db := { db with purchaseOrders := t }
  wrap := .purchaseOrder

theorem purchaseOrderSlot_readable : purchaseOrderSlot.Readable where
  entry_row _ _ := rfl
  get_set _ _ := rfl
  entry_set _ _ := entry_set_of_rows fun tn _ h => by
    cases tn <;> first | rfl | exact absurd rfl h
  logs_set _ _ := rfl
  inj _ _ := Content.purchaseOrder.inj

def purchaseOrderLineSlot : Slot PurchaseOrderLine where
  name := .purchaseOrderLines
  key := PurchaseOrderLine.id
  get := Db.purchaseOrderLines
  set t db := { db with purchaseOrderLines := t }
  wrap _ := .line

theorem purchaseOrderLineSlot_lawful : purchaseOrderLineSlot.Lawful where
  entry_row _ _ := rfl
  get_set _ _ := rfl
  entry_set _ _ := entry_set_of_rows fun tn _ h => by
    cases tn <;> first | rfl | exact absurd rfl h
  logs_set _ _ := rfl

def salesInvoiceSlot : Slot SalesInvoiceRow where
  name := .salesInvoices
  key r := r.id
  get := Db.salesInvoices
  set t db := { db with salesInvoices := t }
  wrap := .salesInvoice

theorem salesInvoiceSlot_readable : salesInvoiceSlot.Readable where
  entry_row _ _ := rfl
  get_set _ _ := rfl
  entry_set _ _ := entry_set_of_rows fun tn _ h => by
    cases tn <;> first | rfl | exact absurd rfl h
  logs_set _ _ := rfl
  inj _ _ := Content.salesInvoice.inj

def purchaseInvoiceSlot : Slot PurchaseInvoiceRow where
  name := .purchaseInvoices
  key r := r.id
  get := Db.purchaseInvoices
  set t db := { db with purchaseInvoices := t }
  wrap := .purchaseInvoice

theorem purchaseInvoiceSlot_readable : purchaseInvoiceSlot.Readable where
  entry_row _ _ := rfl
  get_set _ _ := rfl
  entry_set _ _ := entry_set_of_rows fun tn _ h => by
    cases tn <;> first | rfl | exact absurd rfl h
  logs_set _ _ := rfl
  inj _ _ := Content.purchaseInvoice.inj

def paymentSlot : Slot Payment where
  name := .payments
  key := Payment.id
  get := Db.payments
  set t db := { db with payments := t }
  wrap := .payment

theorem paymentSlot_readable : paymentSlot.Readable where
  entry_row _ _ := rfl
  get_set _ _ := rfl
  entry_set _ _ := entry_set_of_rows fun tn _ h => by
    cases tn <;> first | rfl | exact absurd rfl h
  logs_set _ _ := rfl
  inj _ _ := Content.payment.inj

def purchaseReturnSlot : Slot PurchaseReturnRow where
  name := .purchaseReturns
  key r := r.id
  get := Db.purchaseReturns
  set t db := { db with purchaseReturns := t }
  wrap := .purchaseReturn

theorem purchaseReturnSlot_readable : purchaseReturnSlot.Readable where
  entry_row _ _ := rfl
  get_set _ _ := rfl
  entry_set _ _ := entry_set_of_rows fun tn _ h => by
    cases tn <;> first | rfl | exact absurd rfl h
  logs_set _ _ := rfl
  inj _ _ := Content.purchaseReturn.inj

def purchaseReturnLineSlot : Slot PurchaseReturnLine where
  name := .purchaseReturnLines
  key := PurchaseReturnLine.id
  get := Db.purchaseReturnLines
  set t db := { db with purchaseReturnLines := t }
  wrap _ := .line

theorem purchaseReturnLineSlot_lawful : purchaseReturnLineSlot.Lawful where
  entry_row _ _ := rfl
  get_set _ _ := rfl
  entry_set _ _ := entry_set_of_rows fun tn _ h => by
    cases tn <;> first | rfl | exact absurd rfl h
  logs_set _ _ := rfl

def purchaseReceiptLineSlot : Slot PurchaseReceiptLine where
  name := .purchaseReceiptLines
  key := PurchaseReceiptLine.id
  get := Db.purchaseReceiptLines
  set t db := { db with purchaseReceiptLines := t }
  wrap _ := .line

theorem purchaseReceiptLineSlot_lawful : purchaseReceiptLineSlot.Lawful where
  entry_row _ _ := rfl
  get_set _ _ := rfl
  entry_set _ _ := entry_set_of_rows fun tn _ h => by
    cases tn <;> first | rfl | exact absurd rfl h
  logs_set _ _ := rfl

def stockTransferSlot : Slot StockTransfer where
  name := .stockTransfers
  key := StockTransfer.id
  get := Db.stockTransfers
  set t db := { db with stockTransfers := t }
  wrap := .stockTransfer

theorem stockTransferSlot_readable : stockTransferSlot.Readable where
  entry_row _ _ := rfl
  get_set _ _ := rfl
  entry_set _ _ := entry_set_of_rows fun tn _ h => by
    cases tn <;> first | rfl | exact absurd rfl h
  logs_set _ _ := rfl
  inj _ _ := Content.stockTransfer.inj

def stockTransferItemSlot : Slot StockTransferItem where
  name := .stockTransferItems
  key := StockTransferItem.id
  get := Db.stockTransferItems
  set t db := { db with stockTransferItems := t }
  wrap _ := .line

theorem stockTransferItemSlot_lawful : stockTransferItemSlot.Lawful where
  entry_row _ _ := rfl
  get_set _ _ := rfl
  entry_set _ _ := entry_set_of_rows fun tn _ h => by
    cases tn <;> first | rfl | exact absurd rfl h
  logs_set _ _ := rfl

def inventoryCheckSlot : Slot InventoryCheck where
  name := .inventoryChecks
  key := InventoryCheck.id
  get := Db.inventoryChecks
  set t db := { db with inventoryChecks := t }
  wrap := .inventoryCheck

theorem inventoryCheckSlot_readable : inventoryCheckSlot.Readable where
  entry_row _ _ := rfl
  get_set _ _ := rfl
  entry_set _ _ := entry_set_of_rows fun tn _ h => by
    cases tn <;> first | rfl | exact absurd rfl h
  logs_set _ _ := rfl
  inj _ _ := Content.inventoryCheck.inj

def bomSlot : Slot Bom where
  name := .boms
  key := Bom.id
  get := Db.boms
  set t db := { db with boms := t }
  wrap := .bom

theorem bomSlot_readable : bomSlot.Readable where
  entry_row _ _ := rfl
  get_set _ _ := rfl
  entry_set _ _ := entry_set_of_rows fun tn _ h => by
    cases tn <;> first | rfl | exact absurd rfl h
  logs_set _ _ := rfl
  inj _ _ := Content.bom.inj

def bomItemSlot : Slot BomItem where
  name := .bomItems
  key := BomItem.id
  get := Db.bomItems
  set t db := { db with bomItems := t }
  wrap _ := .line

theorem bomItemSlot_lawful : bomItemSlot.Lawful where
  entry_row _ _ := rfl
  get_set _ _ := rfl
  entry_set _ _ := entry_set_of_rows fun tn _ h => by
    cases tn <;> first | rfl | exact absurd rfl h
  logs_set _ _ := rfl

def inspectionTemplateSlot : Slot InspectionTemplate where
  name := .inspectionTemplates
  key := InspectionTemplate.id
  get := Db.inspectionTemplates
  set t db := { db with inspectionTemplates := t }
  wrap := .inspectionTemplate

theorem inspectionTemplateSlot_readable : inspectionTemplateSlot.Readable where
  entry_row _ _ := rfl
  get_set _ _ := rfl
  entry_set _ _ := entry_set_of_rows fun tn _ h => by
    cases tn <;> first | rfl | exact absurd rfl h
  logs_set _ _ := rfl
  inj _ _ := Content.inspectionTemplate.inj

def inspectionTemplateItemSlot : Slot InspectionTemplateItem where
  name := .inspectionTemplateItems
  key := InspectionTemplateItem.id
  get := Db.inspectionTemplateItems
  set t db := { db with inspectionTemplateItems := t }
  wrap _ := .line

theorem inspectionTemplateItemSlot_lawful : inspectionTemplateItemSlot.Lawful where
  entry_row _ _ := rfl
  get_set _ _ := rfl
  entry_set _ _ := entry_set_of_rows fun tn _ h => by
    cases tn <;> first | rfl | exact absurd rfl h
  logs_set _ _ := rfl

def inspectionOrderSlot : Slot InspectionOrder where
  name := .inspectionOrders
  key := InspectionOrder.id
  get := Db.inspectionOrders
  set t db := { db with inspectionOrders := t }
  wrap := .inspectionOrder

theorem inspectionOrderSlot_readable : inspectionOrderSlot.Readable where
  entry_row _ _ := rfl
  get_set _ _ := rfl
  entry_set _ _ := entry_set_of_rows fun tn _ h => by
    cases tn <;> first | rfl | exact absurd rfl h
  logs_set _ _ := rfl
  inj _ _ := Content.inspectionOrder.inj

def inspectionResultSlot : Slot InspectionResult where
  name := .inspectionResults
  key := InspectionResult.id
  get := Db.inspectionResults
  set t db := { db with inspectionResults := t }
  wrap _ := .line

theorem inspectionResultSlot_lawful : inspectionResultSlot.Lawful where
  entry_row _ _ := rfl
  get_set _ _ := rfl
  entry_set _ _ := entry_set_of_rows fun tn _ h => by
    cases tn <;> first | rfl | exact absurd rfl h
  logs_set _ _ := rfl

def workOrderSlot : Slot WorkOrder where
  name := .workOrders
  key := WorkOrder.id
  get := Db.workOrders
  set t db := { db with workOrders := t }
  wrap := .workOrder

theorem workOrderSlot_readable : workOrderSlot.Readable where
  entry_row _ _ := rfl
  get_set _ _ := rfl
  entry_set _ _ := entry_set_of_rows fun tn _ h => by
    cases tn <;> first | rfl | exact absurd rfl h
  logs_set _ _ := rfl
  inj _ _ := Content.workOrder.inj

end Slab
