import Slab.Erp.Services

/-!
# Inspections

Inspection templates and orders, and the conclusion of an order from the results that its
completion reports. The template says which of its items are required; completion does not look at
the template.

## Main definitions

- `InspectionTemplateCreate.execute`, `InspectionOrderCreate.execute` — the documents
- `InspectionOrderComplete.execute` — the results, and the verdict of the order
- `SoundVerdict` — an order passes only if every required item of its template has passed
- `Db.Concluded` — what is known of an order in every state

## Main results

- `execute_runs_ok` — what a completion writes
- `verdict_of_results` — the verdict is the one of the reported results
- `concluded_of_services` — orders and their stored results agree after every run of requests
-/

namespace Slab

open Txn

/-! ## Templates and orders -/

namespace InspectionTemplateCreate

structure TemplateItemInput where
  name : String
  isRequired : Option Bool
deriving DecidableEq

structure CreateTemplateRequest where
  name : String
  category : ℤ
  items : List TemplateItemInput
deriving DecidableEq

structure CreateTemplateResponse where
  id : ID
  code : String
deriving DecidableEq

/-- `match request.category`. -/
def codePrefix (category : ℤ) : String :=
  if category = 2 then "IPQC" else if category = 3 then "OQC" else "IQC"

def templateItem (i : ℕ) (itemId templateId : ID) (item : TemplateItemInput) :
    InspectionTemplateItem where
  id := itemId
  templateId := templateId
  name := item.name
  isRequired := item.isRequired.getD true
  sortOrder := Arith.i16.norm i

/-- One round of `for (i, item) in request.items.iter().enumerate()`. -/
def insertItem (templateId : ID) (item : TemplateItemInput × ℕ) : Handler Unit := do
  let itemId ← ask .newId
  insertRow .inspectionTemplateItems itemId (fun db => db.inspectionTemplateItems.has itemId)
    fun db => { db with
      inspectionTemplateItems :=
        db.inspectionTemplateItems.insert (templateItem item.2 itemId templateId item.1) }

def execute (ctx : Operator) (request : CreateTemplateRequest) :
    Handler CreateTemplateResponse := do
  let id ← ask .newId
  let seq ← DocNumberer.nextSeq "seq_inspection_order"
  let code := codePrefix request.category ++ "-" ++ DocNumberer.pad6 seq
  insertRow .inspectionTemplates id (fun db => db.inspectionTemplates.has id) fun db =>
    { db with
      inspectionTemplates := db.inspectionTemplates.insert {
        id := id, code := code, name := request.name, category := request.category
        isActive := true } }
  Prog.forEach request.items.zipIdx (insertItem id)
  let row ← Prog.select fun db => db.inspectionTemplates.get? id
  let template ← Prog.orFail row (.sql .rowNotFound)
  AuditService.recordCreate "inspection_template" id ctx (.inspectionTemplate template)
  pure { id := id, code := code }

end InspectionTemplateCreate

namespace InspectionOrderCreate

structure CreateInspectionOrderRequest where
  templateId : ID
  sourceType : String
  sourceId : ID
  itemId : ID
  lotQty : ℤ
  sampleQty : Option ℤ
  inspector : Option String
deriving DecidableEq

structure CreateInspectionOrderResponse where
  id : ID
  code : String
deriving DecidableEq

/-- The new row; the time of inspection is open. -/
def newOrder (id : ID) (code : String) (request : CreateInspectionOrderRequest) :
    InspectionOrder where
  id := id
  code := code
  templateId := some request.templateId
  sourceType := request.sourceType
  sourceId := request.sourceId
  itemId := request.itemId
  lotQty := request.lotQty
  sampleQty := request.sampleQty.getD request.lotQty
  inspector := request.inspector
  result := none
  status := 0
  inspectedAt := none

def execute (ctx : Operator) (request : CreateInspectionOrderRequest) :
    Handler CreateInspectionOrderResponse := do
  let code ← DocNumberer.nextNumber "seq_inspection_order" "IQC"
  let id ← ask .newId
  Prog.insert [.row .inspectionOrders id]
    (fun db => (unique (db.inspectionOrders.has id)).or
      (references (db.inspectionTemplates.has request.templateId)))
    fun db => { db with
      inspectionOrders := db.inspectionOrders.insert (newOrder id code request) }
  let row ← Prog.select fun db => db.inspectionOrders.get? id
  let order ← Prog.orFail row (.sql .rowNotFound)
  AuditService.recordCreate "inspection_order" id ctx (.inspectionOrder order)
  pure { id := id, code := code }

end InspectionOrderCreate

/-! ## Completion -/

/-- `SET result = $1, status = $2, inspected_at = NOW()`. -/
def InspectionOrder.conclude (verdict : ℤ) (now : Timestamp) (r : InspectionOrder) :
    InspectionOrder :=
  { r with
    result := some verdict, status := InspectionOrderStatus.inspected.toI16
    inspectedAt := some now }

theorem InspectionOrder.conclude_id (verdict : ℤ) (now : Timestamp) (r : InspectionOrder) :
    (r.conclude verdict now).id = r.id := rfl

namespace InspectionOrderComplete

structure RecordResult where
  templateItemId : ID
  result : ℤ
  actualValue : Option String
  remark : Option String
deriving DecidableEq

structure CompleteInspectionRequest where
  results : List RecordResult
deriving DecidableEq

structure CompleteInspectionResponse where
  result : ℤ
deriving DecidableEq

/-- The verdict: not passed if any result is a failure. -/
def overall (results : List RecordResult) : ℤ :=
  let anyFail := results.any fun r => r.result = Verdict.fail.toI16
  if anyFail then Verdict.fail.toI16 else Verdict.pass.toI16

def inspectionResult (rid orderId : ID) (r : RecordResult) : InspectionResult where
  id := rid
  inspectionId := orderId
  templateItemId := r.templateItemId
  result := r.result
  actualValue := r.actualValue
  remark := r.remark

/-- One round of `for r in &request.results`; the template item is a foreign key. -/
def insertResult (orderId : ID) (r : RecordResult) : Handler Unit := do
  let rid ← ask .newId
  Prog.insert [.row .inspectionResults rid]
    (fun db => (unique (db.inspectionResults.has rid)).or
      (references (db.inspectionTemplateItems.has r.templateItemId)))
    fun db => { db with
      inspectionResults := db.inspectionResults.insert (inspectionResult rid orderId r) }

/-- The order, locked, unless it has been inspected. -/
def lockPending (id : ID) : Handler InspectionOrder := do
  let found ← Prog.selectForUpdate
    (fun db => lockRow .inspectionOrders id (db.inspectionOrders.has id))
    fun db => db.inspectionOrders.get? id
  let before ← Prog.orFail found (.quality .inspectionNotFound)
  Prog.ensure (!decide (before.status = InspectionOrderStatus.inspected.toI16))
    (.quality .invalidStatus)
  pure before

def conclude (id : ID) (verdict : ℤ) (now : Timestamp) (db : Db) : Db :=
  { db with
    inspectionOrders := db.inspectionOrders.modify id (InspectionOrder.conclude verdict now)
      (InspectionOrder.conclude_id verdict now) }

def execute (ctx : Operator) (id : ID) (request : CompleteInspectionRequest) :
    Handler CompleteInspectionResponse := do
  let before ← lockPending id
  let verdict := overall request.results
  Prog.forEach request.results (insertResult id)
  let now ← ask .now
  Prog.update (fun db => lockRow .inspectionOrders id (db.inspectionOrders.has id))
    (conclude id verdict now)
  let row ← Prog.select fun db => db.inspectionOrders.get? id
  let after ← Prog.orFail row (.sql .rowNotFound)
  AuditService.recordUpdated "inspection_order" id ctx (.inspectionOrder before)
    (.inspectionOrder after)
  pure { result := verdict }

/-! ## What a completion writes -/

theorem overall_of_fail {results : List RecordResult} {r : RecordResult} (hr : r ∈ results)
    (hfail : r.result = Verdict.fail.toI16) : overall results = Verdict.fail.toI16 := by
  have hany : (results.any fun r => r.result = Verdict.fail.toI16) = true :=
    List.any_eq_true.mpr ⟨r, hr, decide_eq_true hfail⟩
  simp only [overall, hany, if_true]

theorem overall_eq_pass_iff {results : List RecordResult} :
    overall results = Verdict.pass.toI16 ↔ ∀ r ∈ results, r.result ≠ Verdict.fail.toI16 := by
  constructor
  · intro h r hr hfail
    rw [overall_of_fail hr hfail] at h
    exact absurd h (by decide)
  · intro h
    have hany : (results.any fun r => r.result = Verdict.fail.toI16) = false := by
      apply List.any_eq_false.mpr
      intro r hr
      simpa using h r hr
    simp [overall, hany]

theorem insertResult_runs_ok {orderId : ID} {r : RecordResult} {v w : Db}
    (h : (insertResult orderId r).Runs v w (.ok ())) :
    ∃ rid, v.inspectionResults.get? rid = none ∧
      v.inspectionTemplateItems.has r.templateItemId = true ∧
      w = { v with
        inspectionResults := v.inspectionResults.insert (inspectionResult rid orderId r) } := by
  simp only [insertResult, Prog.runs_bind_ok, ask, Prog.runs_ask, Prog.runs_insert_ok] at h
  obtain ⟨_, rid, ⟨rfl, -⟩, hok, rfl⟩ := h
  obtain ⟨hfresh, href⟩ := Option.or_eq_none_iff.mp hok
  exact ⟨rid, Table.has_eq_false.mp (unique_eq_none.mp hfresh), references_eq_none.mp href, rfl⟩

/-- The loop stores the results in order, each of an item that some template has. -/
theorem insertResults_runs_ok {orderId : ID} {results : List RecordResult} {v w : Db}
    (h : (Prog.forEach results (insertResult orderId)).Runs v w (.ok ())) :
    (∀ r ∈ results, v.inspectionTemplateItems.has r.templateItemId = true) ∧
      ∃ t : Table InspectionResult.id, w = { v with inspectionResults := t } ∧
        ∃ rows, t.rows = v.inspectionResults.rows ++ rows ∧
          rows.map InspectionResult.result = results.map RecordResult.result ∧
          ∀ row ∈ rows, row.inspectionId = orderId := by
  induction results generalizing v with
  | nil =>
    obtain ⟨rfl, -⟩ := h
    exact ⟨by simp, w.inspectionResults, rfl, [], by simp, rfl, by simp⟩
  | cons r results ih =>
    obtain ⟨u, h₁, h₂⟩ := Prog.runs_forEach_cons_ok.mp h
    obtain ⟨rid, hfresh, href, rfl⟩ := insertResult_runs_ok h₁
    obtain ⟨hrefs, t, rfl, rows, hrows, hmap, hids⟩ := ih h₂
    refine ⟨?_, t, rfl, inspectionResult rid orderId r :: rows, ?_, ?_, ?_⟩
    · intro s hs
      rcases List.mem_cons.mp hs with rfl | hs
      · exact href
      · exact hrefs s hs
    · have hinsert := Table.rows_insert (r := inspectionResult rid orderId r) hfresh
      simp [hrows, hinsert]
    · exact congrArg (r.result :: ·) hmap
    · intro row hrow
      rcases List.mem_cons.mp hrow with rfl | hrow
      · rfl
      · exact hids row hrow

theorem lockPending_runs_ok {id : ID} {v w : Db} {before : InspectionOrder}
    (h : (lockPending id).Runs v w (.ok before)) :
    w = v ∧ v.inspectionOrders.get? id = some before ∧
      before.status ≠ InspectionOrderStatus.inspected.toI16 := by
  simp only [lockPending, Prog.runs_bind_ok, Prog.runs_selectForUpdate, Prog.runs_orFail_ok,
    Prog.runs_ensure_ok, Prog.pure_eq, Prog.runs_ret] at h
  obtain ⟨_, _, ⟨rfl, hf⟩, _, o, ⟨rfl, ho⟩, _, _, ⟨rfl, hs⟩, rfl, hb⟩ := h
  cases hb
  exact ⟨rfl, (Except.ok.inj hf).symm.trans ho, by simpa using hs⟩

/-- What a completion that goes through has found and done. -/
theorem execute_runs_ok {ctx : Operator} {id : ID} {request : CompleteInspectionRequest}
    {v w : Db} {response : CompleteInspectionResponse}
    (h : (execute ctx id request).Runs v w (.ok response)) :
    response.result = overall request.results ∧
    ∃ before, v.inspectionOrders.get? id = some before ∧
      before.status ≠ InspectionOrderStatus.inspected.toI16 ∧
      (∀ r ∈ request.results, v.inspectionTemplateItems.has r.templateItemId = true) ∧
      ∃ now rows, w.inspectionOrders = v.inspectionOrders.modify id
          (InspectionOrder.conclude response.result now)
          (InspectionOrder.conclude_id response.result now) ∧
        w.inspectionResults.rows = v.inspectionResults.rows ++ rows ∧
        rows.map InspectionResult.result = request.results.map RecordResult.result ∧
        ∀ row ∈ rows, row.inspectionId = id := by
  simp only [execute, Prog.runs_bind_ok, ask, Prog.runs_ask, Prog.runs_update, Prog.runs_select,
    Prog.runs_orFail_ok, Prog.pure_eq, Prog.runs_ret] at h
  obtain ⟨_, before, hlock, _, _, hloop, _, now, ⟨rfl, -⟩, _, _, ⟨rfl, -⟩, _, _, ⟨rfl, -⟩, _,
    after, ⟨rfl, -⟩, _, _, hrec, rfl, hresponse⟩ := h
  obtain ⟨rfl, hbefore, hstatus⟩ := lockPending_runs_ok hlock
  obtain ⟨hrefs, t, rfl, rows, hrows, hmap, hids⟩ := insertResults_runs_ok hloop
  obtain ⟨-, row, rfl⟩ := AuditService.record_runs hrec
  cases hresponse
  exact ⟨rfl, before, hbefore, hstatus, hrefs, now, rows, rfl, hrows, hmap, hids⟩

end InspectionOrderComplete

open InspectionOrderComplete (RecordResult overall)

/-! ## Verdicts -/

/-- An order that passes has a passed result for every required item of its template, and no result
but passed ones. -/
def SoundVerdict (db : Db) (order : InspectionOrder) (results : List RecordResult) : Prop :=
  order.result = some Verdict.pass.toI16 →
    (∀ item ∈ db.inspectionTemplateItems.rows, order.templateId = some item.templateId →
      item.isRequired = true → ∃ r ∈ results, r.templateItemId = item.id ∧
        r.result = Verdict.pass.toI16) ∧
    ∀ r ∈ results, r.result = Verdict.pass.toI16

/-- The verdict of an order that is completed is the one of the reported results: passed only when
none of them is a failure, and not passed when one is; of results that are each passed or failed it
is passed exactly when all are. -/
theorem verdict_of_results {ctx : Operator} {id : ID}
    {request : InspectionOrderComplete.CompleteInspectionRequest} {v w : Db}
    {response : InspectionOrderComplete.CompleteInspectionResponse}
    (h : (InspectionOrderComplete.execute ctx id request).Runs v w (.ok response)) :
    ∃ order, w.inspectionOrders.get? id = some order ∧ order.result = some response.result ∧
      order.status = InspectionOrderStatus.inspected.toI16 ∧
      (response.result = Verdict.pass.toI16 →
        ∀ r ∈ request.results, r.result ≠ Verdict.fail.toI16) ∧
      ((∃ r ∈ request.results, r.result = Verdict.fail.toI16) →
        response.result = Verdict.fail.toI16) ∧
      ((∀ r ∈ request.results, r.result = Verdict.pass.toI16 ∨ r.result = Verdict.fail.toI16) →
        (response.result = Verdict.pass.toI16 ↔
          ∀ r ∈ request.results, r.result = Verdict.pass.toI16)) := by
  obtain ⟨hresponse, before, hbefore, -, -, now, rows, horders, -⟩ :=
    InspectionOrderComplete.execute_runs_ok h
  have hpass := @InspectionOrderComplete.overall_eq_pass_iff request.results
  rw [← hresponse] at hpass
  refine ⟨before.conclude response.result now, ?_, rfl, rfl, hpass.mp, ?_, fun hcodes => ?_⟩
  · rw [horders, Table.get?_modify_of_some hbefore]
  · rintro ⟨r, hr, hf⟩
    rw [hresponse]
    exact InspectionOrderComplete.overall_of_fail hr hf
  · rw [hpass]
    constructor
    · intro hnone r hr
      exact (hcodes r hr).resolve_right (hnone r hr)
    · intro hall r hr hf
      exact absurd ((hall r hr).symm.trans hf) (by decide)

/-! ## Runs of requests -/

inductive InspectionRequest where
  | createTemplate (ctx : Operator) (request : InspectionTemplateCreate.CreateTemplateRequest)
  | createOrder (ctx : Operator) (request : InspectionOrderCreate.CreateInspectionOrderRequest)
  | complete (ctx : Operator) (id : ID)
      (request : InspectionOrderComplete.CompleteInspectionRequest)
deriving DecidableEq

namespace InspectionRequest

def run : InspectionRequest → Handler Unit
  | createTemplate ctx request => do
    let _ ← InspectionTemplateCreate.execute ctx request
    pure ()
  | createOrder ctx request => do
    let _ ← InspectionOrderCreate.execute ctx request
    pure ()
  | complete ctx id request => do
    let _ ← InspectionOrderComplete.execute ctx id request
    pure ()

end InspectionRequest

/-- The stored results of an order. -/
def Db.resultsOf (db : Db) (id : ID) : List InspectionResult :=
  db.inspectionResults.rows.filter fun r => r.inspectionId = id

/-- Results belong to orders; an order has none before it is inspected, and the verdict of one that
has been is not passed iff one of its results is a failure. -/
structure Db.Concluded (db : Db) : Prop where
  belongs : ∀ r ∈ db.inspectionResults.rows, db.inspectionOrders.has r.inspectionId = true
  pending : ∀ id order, db.inspectionOrders.get? id = some order →
    order.status ≠ InspectionOrderStatus.inspected.toI16 →
    order.result = none ∧ db.resultsOf id = []
  inspected : ∀ id order, db.inspectionOrders.get? id = some order →
    order.status = InspectionOrderStatus.inspected.toI16 →
    order.result = some (if (db.resultsOf id).any fun r => r.result = Verdict.fail.toI16 then
      Verdict.fail.toI16 else Verdict.pass.toI16)

theorem concluded_empty : Db.empty.Concluded where
  belongs := by intro r hr; cases hr
  pending := by intro id order h; cases h
  inspected := by intro id order h; cases h

/-- What is known of the orders depends on the orders and the results only. -/
theorem Db.Concluded.congr {v w : Db} (h : v.Concluded)
    (ho : w.inspectionOrders = v.inspectionOrders)
    (hr : w.inspectionResults = v.inspectionResults) : w.Concluded := by
  have hof : ∀ id, w.resultsOf id = v.resultsOf id := fun id => by rw [Db.resultsOf, hr]; rfl
  constructor
  · rw [ho, hr]
    exact h.belongs
  · intro id order
    rw [ho, hof]
    exact h.pending id order
  · intro id order
    rw [ho, hof]
    exact h.inspected id order

theorem pending_ne_inspected : (0 : ℤ) ≠ InspectionOrderStatus.inspected.toI16 := by decide

/-- A new order is pending, and no result is its own. -/
theorem Db.Concluded.insert {v w : Db} (h : v.Concluded) {new : InspectionOrder}
    (hfree : v.inspectionOrders.has new.id = false) (hresult : new.result = none)
    (hstatus : new.status ≠ InspectionOrderStatus.inspected.toI16)
    (ho : w.inspectionOrders = v.inspectionOrders.insert new)
    (hr : w.inspectionResults = v.inspectionResults) : w.Concluded := by
  have hof : ∀ id, w.resultsOf id = v.resultsOf id := fun id => by rw [Db.resultsOf, hr]; rfl
  have habsent := Table.has_eq_false.mp hfree
  have hget : ∀ id order, w.inspectionOrders.get? id = some order →
      order = new ∧ id = new.id ∨ v.inspectionOrders.get? id = some order := by
    intro id order hid
    rw [ho] at hid
    by_cases he : new.id = id
    · subst he
      rw [Table.get?_insert_self habsent] at hid
      exact .inl ⟨(Option.some.inj hid).symm, rfl⟩
    · rw [Table.get?_insert_of_ne he] at hid
      exact .inr hid
  constructor
  · intro r hmem
    rw [hr] at hmem
    rw [ho, Table.has_insert, h.belongs r hmem, Bool.or_true]
  · intro id order hid hs
    rw [hof]
    rcases hget id order hid with ⟨rfl, rfl⟩ | hid
    · refine ⟨hresult, List.filter_eq_nil_iff.mpr fun r hmem he => ?_⟩
      have hhas := h.belongs r hmem
      rw [of_decide_eq_true he, hfree] at hhas
      cases hhas
    · exact h.pending id order hid hs
  · intro id order hid hs
    rw [hof]
    rcases hget id order hid with ⟨rfl, rfl⟩ | hid
    · exact absurd hs hstatus
    · exact h.inspected id order hid hs

/-- A pending order is concluded by the results that are added to it. -/
theorem Db.Concluded.conclude {v w : Db} (h : v.Concluded) {id : ID} {before : InspectionOrder}
    (hbefore : v.inspectionOrders.get? id = some before)
    (hstatus : before.status ≠ InspectionOrderStatus.inspected.toI16)
    {results : List RecordResult} {now : Timestamp} {rows : List InspectionResult}
    (ho : w.inspectionOrders = v.inspectionOrders.modify id
      (InspectionOrder.conclude (overall results) now)
      (InspectionOrder.conclude_id (overall results) now))
    (hr : w.inspectionResults.rows = v.inspectionResults.rows ++ rows)
    (hmap : rows.map InspectionResult.result = results.map RecordResult.result)
    (hids : ∀ row ∈ rows, row.inspectionId = id) : w.Concluded := by
  obtain ⟨-, hnone⟩ := h.pending id before hbefore hstatus
  have hown : w.resultsOf id = rows := by
    rw [Db.resultsOf, hr, List.filter_append]
    refine (congrArg (· ++ _) hnone).trans ?_
    exact List.filter_eq_self.mpr fun r hr => by simpa using hids r hr
  have hother : ∀ j, j ≠ id → w.resultsOf j = v.resultsOf j := by
    intro j hj
    rw [Db.resultsOf, hr, List.filter_append]
    have hempty : (rows.filter fun r => r.inspectionId = j) = [] :=
      List.filter_eq_nil_iff.mpr fun r hr => by simp [hids r hr, hj.symm]
    rw [hempty, List.append_nil]
    rfl
  have hverdict : overall results = if rows.any fun r => r.result = Verdict.fail.toI16 then
      Verdict.fail.toI16 else Verdict.pass.toI16 := by
    have hany : (rows.any fun r => r.result = Verdict.fail.toI16) =
        results.any fun r => r.result = Verdict.fail.toI16 := by
      have hl := List.any_map (f := InspectionResult.result) (l := rows)
        (p := fun c => decide (c = Verdict.fail.toI16))
      rw [hmap, List.any_map] at hl
      exact hl.symm
    rw [hany]
    rfl
  have hget : ∀ j order, w.inspectionOrders.get? j = some order →
      j = id ∧ order = before.conclude (overall results) now ∨
        j ≠ id ∧ v.inspectionOrders.get? j = some order := by
    intro j order hj
    rw [ho] at hj
    by_cases he : j = id
    · subst he
      rw [Table.get?_modify_of_some hbefore] at hj
      exact .inl ⟨rfl, (Option.some.inj hj).symm⟩
    · rw [Table.get?_modify_of_ne he] at hj
      exact .inr ⟨he, hj⟩
  constructor
  · intro r hmem
    rw [hr] at hmem
    have hkept : v.inspectionOrders.has r.inspectionId = true := by
      rcases List.mem_append.mp hmem with hmem | hmem
      · exact h.belongs r hmem
      · rw [hids r hmem]
        exact Table.has_iff.mpr ⟨before, hbefore⟩
    obtain ⟨order, horder⟩ := Table.has_iff.mp hkept
    rw [ho, Table.has, Table.get?_modify, horder]
    split <;> rfl
  · intro j order hj hs
    rcases hget j order hj with ⟨-, rfl⟩ | ⟨hne, hj⟩
    · exact absurd rfl hs
    · rw [hother j hne]
      exact h.pending j order hj hs
  · intro j order hj hs
    rcases hget j order hj with ⟨rfl, rfl⟩ | ⟨hne, hj⟩
    · rw [hown, ← hverdict]
      rfl
    · rw [hother j hne]
      exact h.inspected j order hj hs

theorem InspectionTemplateCreate.execute_preserves (ctx : Operator)
    (request : InspectionTemplateCreate.CreateTemplateRequest) :
    (InspectionTemplateCreate.execute ctx request).Preserves
      fun db => (db.inspectionOrders, db.inspectionResults) := by
  refine (Prog.preserves_ask _).bind fun id => ?_
  refine (Prog.preserves_ask _).bind fun seq => ?_
  refine (Prog.preserves_insert (by intro _; rfl)).bind fun _ => ?_
  refine (Prog.preserves_forEach fun item _ => ?_).bind fun _ => ?_
  · exact (Prog.preserves_ask _).bind fun _ => Prog.preserves_insert (by intro _; rfl)
  · refine (Prog.preserves_select _).bind fun row => ?_
    refine (Prog.preserves_orFail _ _).bind fun template => ?_
    refine ((AuditService.record_preserves _ _ _ _ _ _).factor (by intro _; rfl)).bind fun _ => ?_
    exact Prog.preserves_ret _

/-- An order that is created is a new pending row. -/
theorem InspectionOrderCreate.execute_runs_ok {ctx : Operator}
    {request : InspectionOrderCreate.CreateInspectionOrderRequest} {v w : Db}
    {response : InspectionOrderCreate.CreateInspectionOrderResponse}
    (h : (InspectionOrderCreate.execute ctx request).Runs v w (.ok response)) :
    v.inspectionOrders.has response.id = false ∧
      v.inspectionTemplates.has request.templateId = true ∧
      w.inspectionOrders = v.inspectionOrders.insert
        (InspectionOrderCreate.newOrder response.id response.code request) ∧
      w.inspectionResults = v.inspectionResults := by
  simp only [InspectionOrderCreate.execute, Prog.runs_bind_ok, ask, Prog.runs_ask,
    Prog.runs_insert_ok, Prog.runs_select, Prog.runs_orFail_ok, Prog.pure_eq, Prog.runs_ret] at h
  obtain ⟨_, code, hcode, _, id, ⟨rfl, -⟩, _, _, ⟨hok, rfl⟩, _, _, ⟨rfl, -⟩, _, order, ⟨rfl, -⟩, _,
    _, hrec, rfl, hresponse⟩ := h
  obtain rfl := (DocNumberer.nextNumber_preserves (fun db => db) _ _).runs hcode
  obtain ⟨hfresh, href⟩ := Option.or_eq_none_iff.mp hok
  obtain ⟨-, row, rfl⟩ := AuditService.record_runs hrec
  cases hresponse
  exact ⟨unique_eq_none.mp hfresh, references_eq_none.mp href, rfl, rfl⟩

/-- Each request keeps what is known. -/
theorem InspectionRequest.concluded {r : InspectionRequest} {v w : Db} (h : v.Concluded)
    (hrun : r.run.Runs v w (.ok ())) : w.Concluded := by
  cases r with
  | createTemplate ctx request =>
    obtain ⟨response, hrun⟩ := Prog.runs_discard hrun
    have hsame := (InspectionTemplateCreate.execute_preserves ctx request).runs hrun
    exact h.congr (congrArg Prod.fst hsame) (congrArg Prod.snd hsame)
  | createOrder ctx request =>
    obtain ⟨response, hrun⟩ := Prog.runs_discard hrun
    obtain ⟨hfree, -, ho, hr⟩ := InspectionOrderCreate.execute_runs_ok hrun
    exact h.insert hfree rfl pending_ne_inspected ho hr
  | complete ctx id request =>
    obtain ⟨response, hrun⟩ := Prog.runs_discard hrun
    obtain ⟨hresponse, before, hbefore, hstatus, -, now, rows, ho, hr, hmap, hids⟩ :=
      InspectionOrderComplete.execute_runs_ok hrun
    rw [hresponse] at ho
    exact h.conclude hbefore hstatus ho hr hmap hids

/-- Orders and their stored results agree after every run of requests. -/
theorem concluded_of_services {v w : Db} {xs : List (Service Db AppError Unit InspectionRequest)}
    (h : InOrder InspectionRequest.run v xs w) (hv : v.Concluded) : w.Concluded := by
  induction xs generalizing v with
  | nil => exact h ▸ hv
  | cons x xs ih =>
    obtain ⟨rfl, hx, hrest⟩ := h
    refine ih hrest ?_
    cases hr : x.result with
    | ok u =>
      rw [hr] at hx
      exact InspectionRequest.concluded hv (Prog.transacts_ok.mp hx)
    | error e =>
      rw [hr] at hx
      rw [hx.of_error]
      exact hv

/-! ## A run -/

/-- The database after a template with one required item and an order by it. -/
def oneItem : Db :=
  (serveInOrder InspectionRequest.run (numbered 100) Db.empty [
    .createTemplate ⟨1, none, none⟩ ⟨"incoming", 1, [⟨"length", some true⟩]⟩,
    .createOrder ⟨1, none, none⟩ ⟨100, "purchase_receipt", 7, 5, 10, none, none⟩]).2

/-- The completion of that order. -/
def completeOne (results : List RecordResult) :
    Handler InspectionOrderComplete.CompleteInspectionResponse :=
  InspectionOrderComplete.execute ⟨1, none, none⟩ 202 ⟨results⟩

/-- A result that is not passed. -/
theorem verdict_of_failure :
    ∃ w response order, (completeOne [⟨102, 2, none, none⟩]).Runs oneItem w (.ok response) ∧
      w.inspectionOrders.get? 202 = some order ∧ order.result = some Verdict.fail.toI16 := by
  have hok : ((completeOne [⟨102, 2, none, none⟩]).transact (numbered 500) oneItem).2.toOption =
      some ⟨Verdict.fail.toI16⟩ := by decide +kernel
  have hrun := Prog.transacts_ok.mp (Prog.transacts_of_toOption hok)
  obtain ⟨order, horder, hresult, -⟩ := verdict_of_results hrun
  exact ⟨_, _, order, hrun, horder, hresult⟩

/-- Without any result the order passes, although its template requires one. -/
theorem passes_without_results :
    ∃ w response order, (completeOne []).Transacts oneItem w (.ok response) ∧
      w.inspectionOrders.get? 202 = some order ∧
      order.result = some Verdict.pass.toI16 ∧ ¬ SoundVerdict w order [] := by
  let served := (completeOne []).transact (numbered 500) oneItem
  have hok : served.2.toOption = some ⟨Verdict.pass.toI16⟩ := by decide +kernel
  have hget : (served.1.inspectionOrders.get? 202).map (fun o => (o.result, o.templateId)) =
      some (some Verdict.pass.toI16, some 100) := by decide +kernel
  have hitem : (⟨102, 100, "length", true, 0⟩ : InspectionTemplateItem) ∈
      served.1.inspectionTemplateItems.rows := by decide +kernel
  obtain ⟨order, horder, hfields⟩ := Option.map_eq_some_iff.mp hget
  obtain ⟨hresult, htemplate⟩ := Prod.mk.inj hfields
  refine ⟨_, _, order, Prog.transacts_of_toOption hok, horder, hresult, fun hsound => ?_⟩
  obtain ⟨r, hr, -⟩ := (hsound hresult).1 _ hitem htemplate rfl
  cases hr

end Slab
