import Slab.Erp.Services

/-!
# Customers

The handler of `PATCH /api/v1/customers/{id}`.
-/

namespace Slab

open Txn

/-- The columns that a patch writes. -/
structure CustomerColumns where
  name : String
  contactPerson : Option String
  phone : Option String
  address : Option String
  paymentTerms : Option String
  isActive : Bool
deriving DecidableEq

namespace Customer

def columns (r : Customer) : CustomerColumns where
  name := r.name
  contactPerson := r.contactPerson
  phone := r.phone
  address := r.address
  paymentTerms := r.paymentTerms
  isActive := r.isActive

def setColumns (c : CustomerColumns) (r : Customer) : Customer :=
  { r with
    name := c.name, contactPerson := c.contactPerson, phone := c.phone, address := c.address
    paymentTerms := c.paymentTerms, isActive := c.isActive }

theorem setColumns_id (c : CustomerColumns) (r : Customer) : (r.setColumns c).id = r.id := rfl

@[simp] theorem columns_setColumns (c : CustomerColumns) (r : Customer) :
    (r.setColumns c).columns = c := rfl

end Customer

/-- `None`: not given, `Some(None)`: set to null, `Some(Some(v))`: set to `v`. -/
structure UpdateCustomerRequest where
  name : Option String
  contactPerson : Option (Option String)
  phone : Option (Option String)
  address : Option (Option String)
  paymentTerms : Option (Option String)
  isActive : Option Bool
deriving DecidableEq

/-- What is given, and the rest of what has been read. -/
def UpdateCustomerRequest.merge (request : UpdateCustomerRequest) (current : CustomerColumns) :
    CustomerColumns where
  name := request.name.getD current.name
  contactPerson := threeState request.contactPerson current.contactPerson
  phone := threeState request.phone current.phone
  address := threeState request.address current.address
  paymentTerms := threeState request.paymentTerms current.paymentTerms
  isActive := request.isActive.getD current.isActive

def CustomerPort.byId (id : ID) : Handler (Option Customer) :=
  Prog.select fun db => db.customers.get? id

namespace CustomerRepository

def setColumns (id : ID) (c : CustomerColumns) (db : Db) : Db :=
  { db with customers := db.customers.modify id (Customer.setColumns c) (Customer.setColumns_id c) }

def update (id : ID) (request : UpdateCustomerRequest) : Handler Bool := do
  let found ← Prog.select fun db => (db.customers.get? id).map Customer.columns
  let current ← Prog.orFail found (.customer .notFound)
  Prog.update (fun db => lockRow .customers id (db.customers.has id))
    (setColumns id (request.merge current))
  pure true

end CustomerRepository

namespace CustomerUpdate

structure UpdateCustomerResponse where
  updated : Bool
deriving DecidableEq

def execute (ctx : Operator) (id : ID) (request : UpdateCustomerRequest) :
    Handler UpdateCustomerResponse := do
  let foundBefore ← CustomerPort.byId id
  let before ← Prog.orFail foundBefore (.customer .notFound)
  let updated ← CustomerRepository.update id request
  let foundAfter ← CustomerPort.byId id
  let after ← Prog.orFail foundAfter (.customer .notFound)
  AuditService.recordUpdated "customer" id ctx (.customer before) (.customer after)
  pure { updated := updated }

/-- A patch that goes through has written the merge of what it was given into the row. -/
theorem execute_runs_ok {ctx : Operator} {id : ID} {request : UpdateCustomerRequest} {v w : Db}
    {response : UpdateCustomerResponse} (h : (execute ctx id request).Runs v w (.ok response)) :
    ∃ r, v.customers.get? id = some r ∧
      w.customers = v.customers.modify id (Customer.setColumns (request.merge r.columns))
        (Customer.setColumns_id _) := by
  simp only [execute, CustomerPort.byId, CustomerRepository.update, Prog.runs_bind_ok,
    Prog.runs_select, Prog.runs_orFail_ok, Prog.runs_update, Prog.pure_eq, Prog.runs_ret] at h
  obtain ⟨_, _, ⟨rfl, -⟩, _, before, ⟨rfl, -⟩, _, _, ⟨_, _, ⟨rfl, hf⟩, _, cur, ⟨rfl, hcur⟩, _, _,
    ⟨rfl, -⟩, rfl, -⟩, _, _, ⟨rfl, -⟩, _, after, ⟨rfl, -⟩, _, _, hrec, rfl, -⟩ := h
  cases hf
  obtain ⟨r, hr, rfl⟩ := Option.map_eq_some_iff.mp hcur
  obtain ⟨-, row, rfl⟩ := AuditService.record_runs hrec
  exact ⟨r, hr, rfl⟩

end CustomerUpdate

end Slab
