import Mathlib

/-!
# Tables with a primary key

A table is the list of its rows in insertion order, with at most one row for each key.

## Main definitions

- `Table` — rows and the proof that their keys are distinct
- `Table.get?`, `Table.insert`, `Table.modify` — `SELECT`, `INSERT` and `UPDATE` by key
- `Table.tally` — `SUM(g) … WHERE p`
- `Table.updateWhere` — `UPDATE … WHERE p`
- `Table.restrict` — the rows that satisfy a condition, as a table
-/

namespace Txn

/-- Rows in insertion order, no two of them with the same `key`. -/
structure Table {ρ κ : Type} (key : ρ → κ) where
  rows : List ρ
  nodup : (rows.map key).Nodup

namespace Table

variable {ρ κ : Type} [DecidableEq κ] {key : ρ → κ}

def empty : Table key := ⟨[], List.nodup_nil⟩

/-- The row with key `k`. -/
def get? (t : Table key) (k : κ) : Option ρ := t.rows.find? fun r => key r = k

/-- A row with key `k` is there. -/
def has (t : Table key) (k : κ) : Bool := (t.get? k).isSome

/-- Append a row, unless its key is taken. -/
def insert (r : ρ) (t : Table key) : Table key :=
  if h : key r ∈ t.rows.map key then t
  else ⟨t.rows ++ [r], by
    rw [List.map_append]
    exact List.Nodup.append t.nodup (List.nodup_singleton _) (by simpa using h)⟩

theorem map_key_modify (k : κ) (f : ρ → ρ) (hf : ∀ r, key (f r) = key r) (rows : List ρ) :
    (rows.map fun r => if key r = k then f r else r).map key = rows.map key := by
  rw [List.map_map]
  refine List.map_congr_left fun r _ => ?_
  simp only [Function.comp_apply]
  split
  · exact hf r
  · rfl

/-- Change the row with key `k` by `f`, which keeps keys. -/
def modify (k : κ) (f : ρ → ρ) (hf : ∀ r, key (f r) = key r) (t : Table key) : Table key :=
  ⟨t.rows.map fun r => if key r = k then f r else r, by
    rw [map_key_modify k f hf]; exact t.nodup⟩

/-- The sum of `g` over the rows that satisfy `p`. -/
def tally (p : ρ → Bool) (g : ρ → ℤ) (t : Table key) : ℤ := ((t.rows.filter p).map g).sum

/-! ## Reading -/

theorem mem_of_get? {t : Table key} {k : κ} {r : ρ} (h : t.get? k = some r) : r ∈ t.rows :=
  List.mem_of_find?_eq_some h

theorem key_of_get? {t : Table key} {k : κ} {r : ρ} (h : t.get? k = some r) : key r = k := by
  have := List.find?_some h
  simpa using this

theorem get?_eq_none {t : Table key} {k : κ} : t.get? k = none ↔ ∀ r ∈ t.rows, key r ≠ k := by
  simp [get?, List.find?_eq_none]

/-- A key names one row: a row of the table is what its key finds. -/
theorem get?_of_mem {t : Table key} {r : ρ} (h : r ∈ t.rows) : t.get? (key r) = some r := by
  cases hg : t.get? (key r) with
  | none => exact absurd rfl (get?_eq_none.mp hg r h)
  | some s =>
    have hs : s = r := List.inj_on_of_nodup_map t.nodup (mem_of_get? hg) h (key_of_get? hg)
    rw [hs]

theorem get?_eq_some {t : Table key} {k : κ} {r : ρ} :
    t.get? k = some r ↔ r ∈ t.rows ∧ key r = k := by
  constructor
  · intro h
    exact ⟨mem_of_get? h, key_of_get? h⟩
  · rintro ⟨h, rfl⟩
    exact get?_of_mem h

theorem has_iff {t : Table key} {k : κ} : t.has k = true ↔ ∃ r, t.get? k = some r :=
  Option.isSome_iff_exists

theorem has_eq_false {t : Table key} {k : κ} : t.has k = false ↔ t.get? k = none := by
  simp [has]

@[simp] theorem get?_empty (k : κ) : (empty : Table key).get? k = none := rfl

/-! ## Inserting -/

theorem rows_insert {t : Table key} {r : ρ} (h : t.get? (key r) = none) :
    (t.insert r).rows = t.rows ++ [r] := by
  have hn : key r ∉ t.rows.map key := by
    intro hin
    obtain ⟨s, hs, hk⟩ := List.mem_map.mp hin
    exact get?_eq_none.mp h s hs hk
  rw [insert, dif_neg hn]

theorem mem_rows_insert {t : Table key} {r s : ρ} (h : s ∈ (t.insert r).rows) :
    s ∈ t.rows ∨ s = r := by
  unfold insert at h
  split at h
  · exact .inl h
  · rcases List.mem_append.mp h with h | h
    · exact .inl h
    · exact .inr (List.mem_singleton.mp h)

theorem insert_of_has {t : Table key} {r : ρ} (h : t.has (key r) = true) : t.insert r = t := by
  obtain ⟨s, hs⟩ := has_iff.mp h
  have hin : key r ∈ t.rows.map key := List.mem_map.mpr ⟨s, mem_of_get? hs, key_of_get? hs⟩
  rw [insert, dif_pos hin]

theorem get?_insert_of_ne {t : Table key} {r : ρ} {k : κ} (h : key r ≠ k) :
    (t.insert r).get? k = t.get? k := by
  unfold insert
  split
  · rfl
  · simp [get?, List.find?_append, h]

theorem get?_insert_self {t : Table key} {r : ρ} (h : t.get? (key r) = none) :
    (t.insert r).get? (key r) = some r := by
  refine get?_of_mem ?_
  rw [rows_insert h]
  exact List.mem_append_right _ (List.mem_singleton_self r)

/-- What is in a table stays in it when a row is added. -/
theorem get?_insert_of_some {t : Table key} {r s : ρ} {k : κ} (h : t.get? k = some s) :
    (t.insert r).get? k = some s := by
  unfold insert
  split
  · exact h
  · unfold get? at h ⊢
    rw [List.find?_append, h, Option.some_or]

/-- Append the rows whose keys are not taken (`INSERT … ON CONFLICT DO NOTHING`). -/
def insertAll (rs : List ρ) (t : Table key) : Table key := rs.foldl (fun t r => t.insert r) t

theorem get?_insertAll_of_some {rs : List ρ} {t : Table key} {k : κ} {s : ρ}
    (h : t.get? k = some s) : (t.insertAll rs).get? k = some s := by
  induction rs generalizing t with
  | nil => exact h
  | cons r rs ih => exact ih (get?_insert_of_some h)

/-- What is found after an insertion was there before it, or is one of the rows inserted. -/
theorem get?_insertAll {rs : List ρ} {t : Table key} {k : κ} {s : ρ}
    (h : (t.insertAll rs).get? k = some s) : t.get? k = some s ∨ t.get? k = none ∧ s ∈ rs := by
  induction rs generalizing t with
  | nil => exact .inl h
  | cons r rs ih =>
    rcases ih h with h | ⟨hnone, hs⟩
    · cases hk : t.get? k with
      | some s' =>
        rw [get?_insert_of_some hk] at h
        exact .inl h
      | none =>
        rcases mem_rows_insert (mem_of_get? h) with hin | rfl
        · exact absurd (key_of_get? h) (get?_eq_none.mp hk s hin)
        · exact .inr ⟨rfl, List.mem_cons_self⟩
    · cases hk : t.get? k with
      | some s' =>
        rw [get?_insert_of_some hk] at hnone
        cases hnone
      | none => exact .inr ⟨rfl, List.mem_cons_of_mem r hs⟩

theorem tally_insert {t : Table key} {r : ρ} (h : t.get? (key r) = none) (p : ρ → Bool)
    (g : ρ → ℤ) : (t.insert r).tally p g = t.tally p g + if p r then g r else 0 := by
  unfold tally
  rw [rows_insert h, List.filter_append, List.map_append, List.sum_append]
  cases hp : p r <;> simp [hp]

theorem has_insert (t : Table key) (r : ρ) (k : κ) :
    (t.insert r).has k = (decide (key r = k) || t.has k) := by
  by_cases hk : key r = k
  · subst hk
    cases h : t.has (key r) with
    | true => simp [insert_of_has h, h]
    | false => simp [has, get?_insert_self (has_eq_false.mp h)]
  · simp [has, get?_insert_of_ne hk, hk]

/-- What an insert does to a sum, whether or not the key is taken. -/
theorem tally_insert_eq (t : Table key) (r : ρ) (p : ρ → Bool) (g : ρ → ℤ) :
    (t.insert r).tally p g =
      t.tally p g + if t.has (key r) then 0 else if p r then g r else 0 := by
  cases h : t.has (key r) with
  | true => simp [insert_of_has h]
  | false => simpa using tally_insert (has_eq_false.mp h) p g

/-- A sum over rows, by their keys. -/
theorem tally_eq_sum (t : Table key) (p : ρ → Bool) (g : ρ → ℤ) :
    t.tally p g =
      ∑ k ∈ ((t.rows.filter p).map key).toFinset, ((t.get? k).map g).getD 0 := by
  have hnd : ((t.rows.filter p).map key).Nodup := t.nodup.sublist (List.filter_sublist.map key)
  rw [List.sum_toFinset _ hnd, List.map_map, tally]
  refine congrArg List.sum (List.map_congr_left fun r hr => ?_)
  rw [Function.comp_apply, get?_of_mem (List.mem_of_mem_filter hr), Option.map_some,
    Option.getD_some]

theorem mem_keys_filter {t : Table key} {p : ρ → Bool} {k : κ} :
    k ∈ ((t.rows.filter p).map key).toFinset ↔ ∃ r, t.get? k = some r ∧ p r = true := by
  rw [List.mem_toFinset, List.mem_map]
  constructor
  · rintro ⟨r, hr, rfl⟩
    obtain ⟨hmem, hp⟩ := List.mem_filter.mp hr
    exact ⟨r, get?_of_mem hmem, hp⟩
  · rintro ⟨r, hget, hp⟩
    exact ⟨r, List.mem_filter.mpr ⟨mem_of_get? hget, hp⟩, key_of_get? hget⟩

/-! ## Updating -/

section Modify

variable {k : κ} {f : ρ → ρ} {hf : ∀ r, key (f r) = key r} {t : Table key}

theorem rows_modify :
    (t.modify k f hf).rows = t.rows.map fun r => if key r = k then f r else r := rfl

/-- A row of the updated table is an old one, or the update of the row with the key. -/
theorem mem_rows_modify {s : ρ} (h : s ∈ (t.modify k f hf).rows) :
    s ∈ t.rows ∨ ∃ r, t.get? k = some r ∧ s = f r := by
  obtain ⟨r, hr, rfl⟩ := List.mem_map.mp h
  by_cases hk : key r = k
  · exact .inr ⟨r, hk ▸ get?_of_mem hr, if_pos hk⟩
  · rw [if_neg hk]
    exact .inl hr

theorem get?_modify_of_ne {j : κ} (h : j ≠ k) : (t.modify k f hf).get? j = t.get? j := by
  rw [get?, rows_modify, get?]
  induction t.rows with
  | nil => rfl
  | cons r rows ih =>
    simp only [List.map_cons, List.find?_cons]
    by_cases hr : key r = k
    · have hj : key (f r) ≠ j := by rw [hf, hr]; exact Ne.symm h
      have hj' : key r ≠ j := by rw [hr]; exact Ne.symm h
      simpa [hr, hj, hj', Ne.symm h] using ih
    · simp only [hr, if_false, ih]

theorem get?_modify_self : (t.modify k f hf).get? k = (t.get? k).map f := by
  rw [get?, rows_modify, get?]
  induction t.rows with
  | nil => rfl
  | cons r rows ih =>
    simp only [List.map_cons, List.find?_cons]
    by_cases hr : key r = k
    · simp [hr, hf]
    · simpa [hr] using ih

theorem get?_modify_of_some {r : ρ} (h : t.get? k = some r) :
    (t.modify k f hf).get? k = some (f r) := by
  rw [get?_modify_self, h]
  rfl

theorem get?_modify (j : κ) :
    (t.modify k f hf).get? j = if j = k then (t.get? j).map f else t.get? j := by
  by_cases h : j = k
  · rw [if_pos h, h, get?_modify_self]
  · rw [if_neg h, get?_modify_of_ne h]

/-- An update that changes neither `p` nor `g` of the row changes no sum of `g` over `p`. -/
theorem tally_modify_of_same {p : ρ → Bool} {g : ρ → ℤ} (hp : ∀ r, p (f r) = p r)
    (hg : ∀ r, p r = true → g (f r) = g r) : (t.modify k f hf).tally p g = t.tally p g := by
  rw [tally, rows_modify, tally]
  induction t.rows with
  | nil => rfl
  | cons r rows ih =>
    by_cases hr : key r = k
    · cases hpr : p r with
      | false => simpa [hr, hp, hpr] using ih
      | true => simpa [hr, hp, hpr, hg r hpr] using ih
    · cases hpr : p r with
      | false => simpa [hr, hpr] using ih
      | true => simpa [hr, hpr] using ih

/-- A table without the key is not changed by an update of it. -/
theorem modify_of_none (h : t.get? k = none) : t.modify k f hf = t := by
  have hrows : (t.rows.map fun r => if key r = k then f r else r) = t.rows := by
    refine (List.map_congr_left fun r hr => ?_).trans (List.map_id t.rows)
    rw [if_neg (get?_eq_none.mp h r hr), id_eq]
  cases t with
  | mk rows nodup => simp only [modify, mk.injEq]; exact hrows

/-- What an update of one row does to a sum. -/
theorem tally_modify {r : ρ} (h : t.get? k = some r) (p : ρ → Bool) (g : ρ → ℤ) :
    (t.modify k f hf).tally p g =
      t.tally p g - (if p r then g r else 0) + if p (f r) then g (f r) else 0 := by
  obtain ⟨rows, nodup⟩ := t
  induction rows with
  | nil => cases h
  | cons s rows ih =>
    have hnd : (rows.map key).Nodup := (List.nodup_cons.mp nodup).2
    by_cases hs : key s = k
    · -- the row is the first one, and no later row has its key
      have hrs : s = r := by
        simp only [get?, List.find?_cons, hs, decide_true, Option.some.injEq] at h
        exact h
      subst hrs
      have hrest : (⟨rows, hnd⟩ : Table key).get? k = none := by
        refine get?_eq_none.mpr fun r hr hk => (List.nodup_cons.mp nodup).1 ?_
        exact List.mem_map.mpr ⟨r, hr, hk.trans hs.symm⟩
      have hsame : (modify k f hf (⟨rows, hnd⟩ : Table key)).rows = rows :=
        congrArg Table.rows (modify_of_none hrest)
      simp only [modify] at hsame
      simp only [tally, modify, List.map_cons, hs, if_true, hsame, List.filter_cons]
      cases p s <;> cases p (f s) <;> simp <;> omega
    · have hrest : (⟨rows, hnd⟩ : Table key).get? k = some r := by
        simpa [get?, List.find?_cons, hs] using h
      have hih := ih hnd hrest
      simp only [tally, modify] at hih
      simp only [tally, modify, List.map_cons, hs, if_false, List.filter_cons]
      cases p s <;> simp <;> omega

end Modify

/-! ## Updating by a condition -/

/-- Change every row that satisfies `p` by `f`, which keeps keys. -/
def updateWhere (p : ρ → Bool) (f : ρ → ρ) (hf : ∀ r, key (f r) = key r) (t : Table key) :
    Table key :=
  ⟨t.rows.map fun r => if p r then f r else r, by
    have hkeys : (t.rows.map fun r => if p r then f r else r).map key = t.rows.map key := by
      rw [List.map_map]
      refine List.map_congr_left fun r _ => ?_
      simp only [Function.comp_apply]
      split
      · exact hf r
      · rfl
    rw [hkeys]
    exact t.nodup⟩

section UpdateWhere

variable {p : ρ → Bool} {f : ρ → ρ} {hf : ∀ r, key (f r) = key r} {t : Table key}

omit [DecidableEq κ] in
@[simp] theorem rows_updateWhere :
    (t.updateWhere p f hf).rows = t.rows.map fun r => if p r then f r else r := rfl

theorem get?_updateWhere (k : κ) :
    (t.updateWhere p f hf).get? k = (t.get? k).map fun r => if p r then f r else r := by
  rw [get?, rows_updateWhere, get?]
  induction t.rows with
  | nil => rfl
  | cons r rows ih =>
    have hkey : key (if p r then f r else r) = key r := by
      split
      · exact hf r
      · rfl
    rw [List.map_cons, List.find?_cons, List.find?_cons, hkey]
    by_cases hr : key r = k
    · simp [hr]
    · simpa [hr] using ih

omit [DecidableEq κ] in
theorem updateWhere_congr {q : ρ → Bool} (h : ∀ r ∈ t.rows, p r = q r) :
    t.updateWhere p f hf = t.updateWhere q f hf := by
  have hrows : (t.rows.map fun r => if p r then f r else r) =
      t.rows.map fun r => if q r then f r else r :=
    List.map_congr_left fun r hr => by rw [h r hr]
  cases t with
  | mk rows nodup => simp only [updateWhere, mk.injEq]; exact hrows

omit [DecidableEq κ] in
/-- An update by a condition that no row satisfies. -/
theorem updateWhere_of_false (h : ∀ r ∈ t.rows, p r = false) : t.updateWhere p f hf = t := by
  have hrows : (t.rows.map fun r => if p r then f r else r) = t.rows := by
    refine (List.map_congr_left fun r hr => ?_).trans (List.map_id t.rows)
    rw [h r hr]
    rfl
  cases t with
  | mk rows nodup => simp only [updateWhere, mk.injEq]; exact hrows

end UpdateWhere

/-! ## Restricting -/

omit [DecidableEq κ] in
@[ext] theorem ext {t u : Table key} (h : t.rows = u.rows) : t = u := by
  cases t
  cases u
  cases h
  rfl

/-- The rows that satisfy `p`. -/
def restrict (p : ρ → Bool) (t : Table key) : Table key :=
  ⟨t.rows.filter p, t.nodup.sublist (List.filter_sublist.map key)⟩

omit [DecidableEq κ] in
@[simp] theorem rows_restrict (p : ρ → Bool) (t : Table key) :
    (t.restrict p).rows = t.rows.filter p := rfl

/-- A restriction that keeps every row with key `k` finds the same row. -/
theorem get?_restrict {p : ρ → Bool} {k : κ} (hp : ∀ r, key r = k → p r = true) (t : Table key) :
    (t.restrict p).get? k = t.get? k := by
  rw [get?, get?, rows_restrict, List.find?_filter]
  congr 1
  funext r
  by_cases hr : key r = k
  · simp [hr, hp r hr]
  · simp [hr]

theorem get?_restrict_eq_filter (p : ρ → Bool) (k : κ) (t : Table key) :
    (t.restrict p).get? k = (t.get? k).filter p := by
  cases h : t.get? k with
  | none =>
    refine get?_eq_none.mpr fun r hr => ?_
    exact get?_eq_none.mp h r (List.mem_filter.mp hr).1
  | some r =>
    obtain ⟨hr, rfl⟩ := get?_eq_some.mp h
    cases hp : p r with
    | true =>
      rw [Option.filter_some_pos hp]
      exact get?_eq_some.mpr ⟨List.mem_filter.mpr ⟨hr, hp⟩, rfl⟩
    | false =>
      rw [Option.filter_some_neg (by simp [hp])]
      refine get?_eq_none.mpr fun s hs hkey => ?_
      obtain ⟨hs, hps⟩ := List.mem_filter.mp hs
      have hsr : s = r := List.inj_on_of_nodup_map t.nodup hs hr hkey
      rw [hsr, hp] at hps
      cases hps

theorem get?_restrict_eq_none {p : ρ → Bool} {k : κ} (hp : ∀ r, key r = k → p r = false)
    (t : Table key) : (t.restrict p).get? k = none := by
  refine get?_eq_none.mpr fun r hr hk => ?_
  have := (List.mem_filter.mp hr).2
  rw [hp r hk] at this
  cases this

theorem restrict_modify {p : ρ → Bool} {k : κ} {f : ρ → ρ} {hf : ∀ r, key (f r) = key r}
    (hp : ∀ r, p (f r) = p r) (t : Table key) :
    (t.modify k f hf).restrict p = (t.restrict p).modify k f hf := by
  ext1
  rw [rows_restrict, rows_modify, rows_modify, rows_restrict, List.filter_map]
  congr 2
  funext r
  simp only [Function.comp_apply]
  split
  · exact hp r
  · rfl

theorem restrict_insert {p : ρ → Bool} {r : ρ} (hp : ∀ s, key s = key r → p s = true)
    (t : Table key) : (t.insert r).restrict p = (t.restrict p).insert r := by
  cases h : t.has (key r) with
  | true =>
    have h' : (t.restrict p).has (key r) = true := by rw [has, get?_restrict hp]; exact h
    rw [insert_of_has h, insert_of_has h']
  | false =>
    have hnone := has_eq_false.mp h
    ext1
    rw [rows_restrict, rows_insert hnone, rows_insert ((get?_restrict hp t).trans hnone),
      rows_restrict, List.filter_append, List.filter_singleton, hp r rfl]
    rfl

theorem restrict_insertAll {p : ρ → Bool} {rs : List ρ}
    (hp : ∀ r ∈ rs, ∀ s, key s = key r → p s = true) (t : Table key) :
    (t.insertAll rs).restrict p = (t.restrict p).insertAll rs := by
  induction rs generalizing t with
  | nil => rfl
  | cons r rs ih =>
    rw [insertAll, List.foldl_cons, insertAll, List.foldl_cons,
      ← restrict_insert (hp r List.mem_cons_self)]
    exact ih (fun r hr => hp r (List.mem_cons_of_mem _ hr)) (t.insert r)

theorem restrict_insert_of_false {p : ρ → Bool} {r : ρ} (hp : p r = false) (t : Table key) :
    (t.insert r).restrict p = t.restrict p := by
  cases h : t.has (key r) with
  | true => rw [insert_of_has h]
  | false =>
    ext1
    rw [rows_restrict, rows_insert (has_eq_false.mp h), List.filter_append, List.filter_singleton,
      hp]
    simp

theorem restrict_insertAll_of_false {p : ρ → Bool} {rs : List ρ} (hp : ∀ r ∈ rs, p r = false)
    (t : Table key) : (t.insertAll rs).restrict p = t.restrict p := by
  induction rs generalizing t with
  | nil => rfl
  | cons r rs ih =>
    rw [insertAll, List.foldl_cons]
    exact (ih (fun r hr => hp r (List.mem_cons_of_mem _ hr)) (t.insert r)).trans
      (restrict_insert_of_false (hp r List.mem_cons_self) t)

end Table

end Txn
