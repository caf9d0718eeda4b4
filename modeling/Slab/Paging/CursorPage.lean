import Slab.Sql.Keyset

/-!
# Pages of a list

A list endpoint returns the rows with the largest ids below a cursor, and the id of the last one as
the cursor of the next page, as long as there are more. Whether there are is seen on one row more
than the page has, which is dropped.

## Main definitions

- `CursorPagingQuery` — the cursor and the limit of a request
- `paginate`, `paginateWith` — the two ways to a page
- `Pages` — the pages that a client sees who follows the cursors

## Main results

- `page_eq` — a page is the front of what the cursor has left
- `pages_iff` — the pages are the rows that existed at the start, each once and in descending order

## Design notes

The caller of the two functions gives a statement without an order and a limit of its own, which the
type says. What a row of the database is, and how a response item is read from it, is up to the
caller.
-/

namespace Slab.Paging

open Keyset

/-! ## Requests and statements -/

/-- A request for a page; the fields are texts that are parsed as 64-bit integers. -/
structure CursorPagingQuery where
  cursor : Option ℤ
  requested : Option ℤ
deriving DecidableEq

namespace CursorPagingQuery

def defaultLimit : ℤ := 10

def cursorId (paging : CursorPagingQuery) : Option ℤ := paging.cursor

/-- `clamp(1, 100)`. -/
def limit (paging : CursorPagingQuery) : ℕ :=
  (max 1 (min 100 (paging.requested.getD defaultLimit))).toNat

theorem limit_pos (paging : CursorPagingQuery) : 0 < paging.limit := by
  rw [limit]
  omega

end CursorPagingQuery

/-- A statement without an order and a limit: the conditions of its `WHERE` clause. -/
structure SelectStatement (Row : Type) where
  wheres : List (Row → Bool)

namespace SelectStatement

variable {Row : Type}

def andWhere (select : SelectStatement Row) (condition : Row → Bool) : SelectStatement Row :=
  ⟨select.wheres ++ [condition]⟩

/-- The rows that the statement is about. -/
def Matches (select : SelectStatement Row) (row : Row) : Bool :=
  select.wheres.all fun condition => condition row

end SelectStatement

/-- A statement with an order, descending, and a limit. -/
structure KeysetStatement (Row : Type) where
  select : SelectStatement Row
  orderDesc : Row → ℤ
  limit : ℕ

/-- What the database answers over the rows of the `FROM` clause. -/
def KeysetStatement.run {Row : Type} (statement : KeysetStatement Row) (rows : List Row) :
    List Row :=
  (sortDesc statement.orderDesc (rows.filter statement.select.Matches)).take statement.limit

section Paginate

variable {Row Item Error : Type}

/-- The condition on the cursor, the order, and one row more than the page has. -/
def applyKeyset (select : SelectStatement Row) (col : Row → ℤ) (paging : CursorPagingQuery) :
    KeysetStatement Row where
  select :=
    match paging.cursorId with
    | some cursor => select.andWhere fun row => col row < cursor
    | none => select
  orderDesc := col
  limit := paging.limit + 1

structure CursorPagingResult (Item : Type) where
  items : List Item
  nextCursor : Option ℤ
deriving DecidableEq

/-- Without the row that has been fetched to see whether there are more. -/
def finalize (mapped : List (Item × ℤ)) (paging : CursorPagingQuery) : CursorPagingResult Item :=
  if paging.limit < mapped.length then
    ⟨mapped.dropLast.map Prod.fst, mapped.dropLast.getLast?.map Prod.snd⟩
  else ⟨mapped.map Prod.fst, none⟩

/-- The id of the cursor is read from the column that the statement is ordered by. -/
def paginate (rows : List Row) (select : SelectStatement Row) (paging : CursorPagingQuery)
    (col : Row → ℤ) (fromRow : Row → Except Error Item) :
    Except Error (CursorPagingResult Item) := do
  let fetched := (applyKeyset select col paging).run rows
  let mapped ← fetched.mapM fun row => do
    let item ← fromRow row
    pure (item, col row)
  pure (finalize mapped paging)

/-- The id of the cursor is up to the caller. -/
def paginateWith (rows : List Row) (select : SelectStatement Row) (paging : CursorPagingQuery)
    (col : Row → ℤ) (map : Row → Except Error (Item × ℤ)) :
    Except Error (CursorPagingResult Item) := do
  let fetched := (applyKeyset select col paging).run rows
  let mapped ← fetched.mapM map
  pure (finalize mapped paging)

/-! ## Following the cursors -/

/-- The items that a client collects who sends the request number `i` with a cursor, and then goes
on with the next cursor to the last page. -/
inductive Pages (answer : ℕ → Option ℤ → Except Error (CursorPagingResult Item)) :
    ℕ → Option ℤ → List Item → Prop where
  | last {i : ℕ} {cursor : Option ℤ} {items : List Item}
      (h : answer i cursor = .ok ⟨items, none⟩) : Pages answer i cursor items
  | next {i : ℕ} {cursor : Option ℤ} {items more : List Item} {c : ℤ}
      (h : answer i cursor = .ok ⟨items, some c⟩) (hmore : Pages answer (i + 1) (some c) more) :
      Pages answer i cursor (items ++ more)

/-- Nothing is left to chance: the pages are determined. -/
theorem Pages.unique {answer : ℕ → Option ℤ → Except Error (CursorPagingResult Item)} {i : ℕ}
    {cursor : Option ℤ} {items items' : List Item} (h : Pages answer i cursor items)
    (h' : Pages answer i cursor items') : items = items' := by
  induction h generalizing items' with
  | last h =>
    cases h' with
    | last h' => exact congrArg CursorPagingResult.items (Except.ok.inj (h.symm.trans h'))
    | next h' _ => cases h.symm.trans h'
  | next h _ ih =>
    cases h' with
    | last h' => cases h.symm.trans h'
    | next h' hmore' =>
      obtain ⟨rfl, hcursor⟩ := CursorPagingResult.mk.inj (Except.ok.inj (h.symm.trans h'))
      cases hcursor
      rw [ih hmore']

/-- A table: rows with distinct ids. -/
structure Table (Row : Type) (id : Row → ℤ) where
  rows : List Row
  distinct : (rows.map id).Nodup

/-- Rows have been inserted whose ids are larger than those of the table. -/
def Table.Inserted {id : Row → ℤ} (table later : Table Row id) : Prop :=
  ∃ new : List Row, later.rows.Perm (new ++ table.rows) ∧
    ∀ row ∈ new, ∀ old ∈ table.rows, id old < id row

/-- The rows that a statement is about, in the order of a list. -/
def listed {id : Row → ℤ} (table : Table Row id) (select : SelectStatement Row) : List Row :=
  sortDesc id (table.rows.filter select.Matches)

/-! ## A page -/

section Page

variable {id : Row → ℤ} {table later : Table Row id} {select : SelectStatement Row}

theorem listed_perm : (listed table select).Perm (table.rows.filter select.Matches) :=
  sortDesc_perm id _

theorem descending_listed : Descending id (listed table select) :=
  descending_sortDesc (table.distinct.sublist (List.filter_sublist.map id))

/-- What a cursor has left of the rows of a table. -/
def Remaining (table : Table Row id) (select : SelectStatement Row) (cursor : Option ℤ)
    (rest : List Row) : Prop :=
  match cursor with
  | none => rest = listed table select
  | some c => ∃ front x, listed table select = front ++ x :: rest ∧ id x = c

theorem Remaining.descending {cursor : Option ℤ} {rest : List Row}
    (h : Remaining table select cursor rest) : Descending id rest := by
  cases cursor with
  | none => exact h ▸ descending_listed
  | some c =>
    obtain ⟨front, x, hlisted, -⟩ := h
    have hall : Descending id (front ++ x :: rest) := hlisted ▸ descending_listed
    exact (List.pairwise_cons.mp hall.append_right).2

/-- The statement asks for the front of what is left, with one row more than the page has. New rows
are not below a cursor. -/
theorem run_applyKeyset {paging : CursorPagingQuery} {rest : List Row}
    (h : Remaining table select paging.cursor rest)
    (hlater : table.Inserted later) (hfirst : paging.cursor = none → later.rows.Perm table.rows) :
    (applyKeyset select id paging).run later.rows = rest.take (paging.limit + 1) := by
  suffices hperm : (later.rows.filter (applyKeyset select id paging).select.Matches).Perm rest by
    show (sortDesc id _).take (paging.limit + 1) = _
    rw [sortDesc_eq h.descending hperm]
  obtain ⟨cursor, requested⟩ := paging
  cases cursor with
  | none =>
    rw [h]
    exact ((hfirst rfl).filter _).trans listed_perm.symm
  | some c =>
    obtain ⟨front, x, hlisted, rfl⟩ := h
    obtain ⟨new, hnew, hlarger⟩ := hlater
    have hx : x ∈ table.rows := by
      have hmem : x ∈ listed table select := by simp [hlisted]
      exact (List.mem_filter.mp (listed_perm.mem_iff.mp hmem)).1
    have hmatches : (applyKeyset select id ⟨some (id x), requested⟩).select.Matches =
        fun row => decide (id row < id x) && select.Matches row := by
      funext row
      simp [applyKeyset, CursorPagingQuery.cursorId, SelectStatement.andWhere,
        SelectStatement.Matches, Bool.and_comm]
    have hnone : new.filter (fun row => decide (id row < id x) && select.Matches row) = [] := by
      rw [List.filter_eq_nil_iff]
      intro row hrow
      have hlt := hlarger row hrow x hx
      simp [hlt.le]
    have hbelow : (listed table select).filter (fun row => id row < id x) = rest := by
      rw [hlisted]
      exact Descending.filter_lt (hlisted ▸ descending_listed)
    calc (later.rows.filter (applyKeyset select id ⟨some (id x), requested⟩).select.Matches)
        _ = later.rows.filter (fun row => decide (id row < id x) && select.Matches row) := by
          rw [hmatches]
        List.Perm _ ((new ++ table.rows).filter
            (fun row => decide (id row < id x) && select.Matches row)) := hnew.filter _
        _ = (table.rows.filter select.Matches).filter (fun row => id row < id x) := by
          rw [List.filter_append, hnone, List.nil_append, List.filter_filter]
        List.Perm _ ((listed table select).filter (fun row => id row < id x)) :=
          listed_perm.symm.filter _
        _ = rest := hbelow

/-- What a request returns when the rest of the table, in order, begins with a page. -/
theorem finalize_take {item : Row → Item} {paging : CursorPagingQuery} (rest : List Row) :
    finalize ((rest.take (paging.limit + 1)).map fun row => (item row, id row)) paging =
      ⟨(rest.take paging.limit).map item,
        if paging.limit < rest.length then ((rest.take paging.limit).getLast?).map id else none⟩ := by
  rw [finalize]
  simp only [List.length_map, List.length_take]
  by_cases hmore : paging.limit < rest.length
  · have hlength : paging.limit < min (paging.limit + 1) rest.length := by omega
    have hdrop : (rest.take (paging.limit + 1)).dropLast = rest.take paging.limit := by
      rw [List.dropLast_eq_take, List.length_take, List.take_take]
      exact congrArg (rest.take ·) (by omega)
    rw [if_pos hlength, if_pos hmore, ← List.map_dropLast, hdrop, List.getLast?_map,
      List.map_map, Option.map_map]
    rfl
  · rw [if_neg (by omega), if_neg hmore, List.take_of_length_le (by omega),
      List.take_of_length_le (by omega), List.map_map]
    rfl

theorem mapM_eq_ok {α β : Type} {f : α → Except Error β} {g : α → β} {l : List α}
    (h : ∀ a ∈ l, f a = .ok (g a)) : l.mapM f = .ok (l.map g) := by
  induction l with
  | nil => rfl
  | cons a l ih =>
    rw [List.mapM_cons, h a List.mem_cons_self, ih fun b hb => h b (List.mem_cons_of_mem a hb)]
    rfl

theorem Remaining.mem {cursor : Option ℤ} {rest : List Row} (h : Remaining table select cursor rest)
    {row : Row} (hrow : row ∈ rest) : row ∈ table.rows ∧ select.Matches row = true := by
  have hlisted : row ∈ listed table select := by
    cases cursor with
    | none => exact h ▸ hrow
    | some c =>
      obtain ⟨front, x, hlisted, -⟩ := h
      simp [hlisted, hrow]
  exact List.mem_filter.mp (listed_perm.mem_iff.mp hlisted)

/-- Behind a row, its id is the cursor of what is left. -/
theorem Remaining.next {cursor : Option ℤ} {front rest : List Row} {x : Row}
    (h : Remaining table select cursor (front ++ x :: rest)) :
    Remaining table select (some (id x)) rest := by
  cases cursor with
  | none => exact ⟨front, x, h.symm, rfl⟩
  | some c =>
    obtain ⟨front', x', hlisted, -⟩ := h
    exact ⟨front' ++ x' :: front, x, by simp [hlisted], rfl⟩

/-- A page is the front of what the cursor has left, and its cursor has left the rest. -/
theorem page_eq (paging : CursorPagingQuery) {rest : List Row} {item : Row → Item}
    {map : Row → Except Error (Item × ℤ)} (h : Remaining table select paging.cursor rest)
    (hlater : table.Inserted later) (hfirst : paging.cursor = none → later.rows.Perm table.rows)
    (hmap : ∀ row ∈ table.rows, select.Matches row = true → map row = .ok (item row, id row)) :
    ∃ next, paginateWith later.rows select paging id map =
        .ok ⟨(rest.take paging.limit).map item, next⟩ ∧
      (next = none → rest.drop paging.limit = []) ∧
      ∀ c, next = some c → Remaining table select (some c) (rest.drop paging.limit) ∧
        (rest.drop paging.limit).length < rest.length := by
  have hfetched := run_applyKeyset h hlater hfirst
  have hmapped : (rest.take (paging.limit + 1)).mapM map =
      .ok ((rest.take (paging.limit + 1)).map fun row => (item row, id row)) := by
    refine mapM_eq_ok fun row hrow => ?_
    obtain ⟨htable, hmatches⟩ := h.mem (List.mem_of_mem_take hrow)
    exact hmap row htable hmatches
  refine ⟨if paging.limit < rest.length then ((rest.take paging.limit).getLast?).map id else none,
    ?_, fun hnone => ?_, fun c hc => ?_⟩
  · rw [paginateWith, hfetched, hmapped]
    exact congrArg Except.ok (finalize_take rest)
  · split at hnone
    · rename_i hmore
      have hpos := paging.limit_pos
      have hempty : rest.take paging.limit = [] := by simpa using hnone
      rw [List.take_eq_nil_iff] at hempty
      obtain hzero | rfl := hempty
      · omega
      · exact absurd hmore (by simp)
    · rename_i hmore
      exact List.drop_eq_nil_of_le (by omega)
  · split at hc
    · rename_i hmore
      obtain ⟨x, hx, rfl⟩ := Option.map_eq_some_iff.mp hc
      obtain ⟨front, hfront⟩ := List.getLast?_eq_some_iff.mp hx
      have hsplit : rest = front ++ x :: rest.drop paging.limit := by
        calc rest
            _ = rest.take paging.limit ++ rest.drop paging.limit :=
              (List.take_append_drop paging.limit rest).symm
            _ = front ++ x :: rest.drop paging.limit := by
              rw [hfront, List.append_assoc, List.singleton_append]
      constructor
      · rw [hsplit] at h
        exact h.next
      · have hpos := paging.limit_pos
        rw [List.length_drop]
        omega
    · cases hc

end Page

/-! ## All pages -/

section AllPages

variable {id : Row → ℤ} {tables : ℕ → Table Row id} {select : SelectStatement Row}
  {limits : ℕ → Option ℤ} {item : Row → Item} {map : Row → Except Error (Item × ℤ)}

/-- The pages from a cursor on are what it has left. -/
theorem pages_of_remaining (limits : ℕ → Option ℤ) (hinserted : ∀ i, (tables 0).Inserted (tables i))
    (hmap : ∀ row ∈ (tables 0).rows, select.Matches row = true → map row = .ok (item row, id row))
    (n : ℕ) : ∀ {i cursor rest}, rest.length ≤ n → Remaining (tables 0) select cursor rest →
      (cursor = none → i = 0) →
      Pages (fun i cursor => paginateWith (tables i).rows select ⟨cursor, limits i⟩ id map) i cursor
        (rest.map item) := by
  induction n with
  | zero =>
    intro i cursor rest hlength h hi
    cases List.length_eq_zero_iff.mp (Nat.le_zero.mp hlength)
    obtain ⟨next, hpage, -, hsome⟩ := page_eq ⟨cursor, limits i⟩ h (hinserted i)
      (fun hnone => hi hnone ▸ .refl _) hmap
    cases next with
    | none => exact .last (hpage.trans (by rw [List.take_nil]))
    | some c => exact absurd (hsome c rfl).2 (by simp)
  | succ n ih =>
    intro i cursor rest hlength h hi
    obtain ⟨next, hpage, hnone, hsome⟩ := page_eq ⟨cursor, limits i⟩ h (hinserted i)
      (fun hnone => hi hnone ▸ .refl _) hmap
    rw [← List.take_append_drop (CursorPagingQuery.limit ⟨cursor, limits i⟩) rest, List.map_append]
    cases next with
    | none =>
      rw [hnone rfl, List.map_nil, List.append_nil]
      exact .last hpage
    | some c =>
      obtain ⟨hrest, hshorter⟩ := hsome c rfl
      exact .next hpage (ih (by omega) hrest nofun)

/-- The pages are the rows that existed at the start, each once and in descending order, whatever
has been inserted in between. -/
theorem pages_iff (hinserted : ∀ i, (tables 0).Inserted (tables i))
    {fromRow : Row → Except Error Item}
    (hfromRow : ∀ row ∈ (tables 0).rows, select.Matches row = true → fromRow row = .ok (item row))
    (hmap : ∀ row ∈ (tables 0).rows, select.Matches row = true →
      map row = .ok (item row, id row)) :
    ∃ rows : List Row, rows.Perm ((tables 0).rows.filter select.Matches) ∧
      rows.Pairwise (fun row next => id next < id row) ∧ ∀ items : List Item,
        (Pages (fun i cursor => paginate (tables i).rows select ⟨cursor, limits i⟩ id fromRow)
            0 none items ↔ items = rows.map item) ∧
        (Pages (fun i cursor => paginateWith (tables i).rows select ⟨cursor, limits i⟩ id map)
            0 none items ↔ items = rows.map item) := by
  have hpages (map : Row → Except Error (Item × ℤ))
      (hmap : ∀ row ∈ (tables 0).rows, select.Matches row = true →
        map row = .ok (item row, id row)) (items : List Item) :
      Pages (fun i cursor => paginateWith (tables i).rows select ⟨cursor, limits i⟩ id map)
        0 none items ↔ items = (listed (tables 0) select).map item := by
    have hall := pages_of_remaining limits hinserted hmap _ le_rfl
      (show Remaining (tables 0) select none _ from rfl) fun _ => rfl
    exact ⟨fun h => h.unique hall, fun h => h ▸ hall⟩
  refine ⟨listed (tables 0) select, listed_perm, descending_listed, fun items => ⟨?_, ?_⟩⟩
  · refine hpages (fun row => do
      let item ← fromRow row
      pure (item, id row)) (fun row hrow hmatches => ?_) items
    rw [hfromRow row hrow hmatches]
    rfl
  · exact hpages map hmap items

end AllPages

end Paginate

/-- Three rows, of which the second does not match. -/
def threeRows : Table (ℤ × Bool) Prod.fst := ⟨[(1, true), (3, true), (2, false)], by decide⟩

/-- The same rows and a fourth one. -/
def fourRows : Table (ℤ × Bool) Prod.fst := ⟨(7, true) :: threeRows.rows, by decide⟩

/-- The first page is read from three rows, and the others from four. -/
def growingRows (i : ℕ) : Table (ℤ × Bool) Prod.fst := if i = 0 then threeRows else fourRows

theorem pages_iff_growingRows :
    ∃ rows : List (ℤ × Bool),
      rows.Perm (threeRows.rows.filter (SelectStatement.mk [Prod.snd]).Matches) ∧
      rows.Pairwise (fun row next => next.1 < row.1) ∧ ∀ items : List ℤ,
        (Pages (fun i cursor => paginate (growingRows i).rows ⟨[Prod.snd]⟩ ⟨cursor, some 0⟩
            Prod.fst fun row => (.ok row.1 : Except Unit ℤ)) 0 none items ↔
          items = rows.map Prod.fst) ∧
        (Pages (fun i cursor => paginateWith (growingRows i).rows ⟨[Prod.snd]⟩ ⟨cursor, some 0⟩
            Prod.fst fun row => (.ok (row.1, row.1) : Except Unit (ℤ × ℤ))) 0 none items ↔
          items = rows.map Prod.fst) := by
  have hinserted (i : ℕ) : (growingRows 0).Inserted (growingRows i) := by
    by_cases hi : i = 0
    · subst hi
      exact ⟨[], .refl _, nofun⟩
    · rw [growingRows, growingRows, if_pos rfl, if_neg hi]
      exact ⟨[(7, true)], .refl _, by decide⟩
  exact pages_iff hinserted (fun _ _ _ => rfl) fun _ _ _ => rfl

end Slab.Paging
