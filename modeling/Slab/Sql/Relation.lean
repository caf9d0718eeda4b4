import Mathlib.Data.List.Dedup
import Mathlib.Algebra.BigOperators.Group.List.Basic
import Mathlib.Data.Int.Basic
import Mathlib.Tactic.Linarith

/-!
# Joins and groups

Queries over lists of rows: joins, left joins, groups and sums with their `NULL`s.

## Main definitions

- `join`, `leftJoin` — `JOIN … ON` and `LEFT JOIN … ON`
- `groupBy` — `GROUP BY`, each key once with its rows
- `sum?` — `SUM`, `NULL` over no values
- `aggregate` — one row for each key with an aggregate of its group

## Main results

- `leftJoin_of_nodup` — a left join to rows with distinct keys is a lookup in them
- `find?_aggregate` — what the lookup of a key in an aggregate finds
- `filter_leftJoin` — the rows of a left join for one row on the left
- `map_fst_leftJoin` — a left join with one match at most keeps every row once
- `sum_join` — a sum over a join, one side after the other
-/

namespace Relation

variable {α β κ : Type}

/-- `xs JOIN ys ON on`. -/
def join (on : α → β → Bool) (xs : List α) (ys : List β) : List (α × β) :=
  xs.flatMap fun x => (ys.filter (on x)).map (Prod.mk x)

/-- The matches of a row on the left, one row of `NULL`s where there are none. -/
def matched (on : α → β → Bool) (ys : List β) (x : α) : List (α × Option β) :=
  match ys.filter (on x) with
  | [] => [(x, none)]
  | y :: more => (y :: more).map fun y => (x, some y)

/-- `xs LEFT JOIN ys ON on`. -/
def leftJoin (on : α → β → Bool) (xs : List α) (ys : List β) : List (α × Option β) :=
  xs.flatMap (matched on ys)

/-- `SUM(f)`: the `NULL`s are left out, and it is `NULL` where nothing is left. -/
def sum? (f : α → Option ℤ) (rows : List α) : Option ℤ :=
  match rows.filterMap f with
  | [] => none
  | n :: more => some (n :: more).sum

/-- `COALESCE(x, 0)`. -/
def coalesce (x : Option ℤ) : ℤ := x.getD 0

theorem coalesce_sum? (f : α → Option ℤ) (rows : List α) :
    coalesce (sum? f rows) = (rows.filterMap f).sum := by
  unfold sum?
  split
  · rename_i h
    rw [h]
    rfl
  · rename_i h
    rw [h]
    rfl

@[simp] theorem sum?_nil (f : α → Option ℤ) : sum? f [] = none := rfl

/-- The sum of a column that is never `NULL`. -/
theorem coalesce_sum?_some (f : α → ℤ) (rows : List α) :
    coalesce (sum? (fun r => some (f r)) rows) = (rows.map f).sum := by
  rw [coalesce_sum?, List.filterMap_eq_map']

theorem isSome_sum?_some {f : α → ℤ} {rows : List α} :
    (sum? (fun r => some (f r)) rows).isSome ↔ rows ≠ [] := by
  cases rows <;> simp [sum?]

/-! ## Groups -/

section Groups

variable [DecidableEq κ]

/-- `GROUP BY key`. -/
def groupBy (key : α → κ) (rows : List α) : List (κ × List α) :=
  (rows.map key).dedup.map fun k => (k, rows.filter fun r => key r = k)

theorem mem_groupBy {key : α → κ} {rows : List α} {k : κ} {group : List α} :
    (k, group) ∈ groupBy key rows ↔
      (∃ r ∈ rows, key r = k) ∧ group = rows.filter fun r => key r = k := by
  simp only [groupBy, List.mem_map, List.mem_dedup, Prod.mk.injEq]
  constructor
  · rintro ⟨_, ⟨r, hr, rfl⟩, rfl, rfl⟩
    exact ⟨⟨r, hr, rfl⟩, rfl⟩
  · rintro ⟨⟨r, hr, rfl⟩, rfl⟩
    exact ⟨key r, ⟨r, hr, rfl⟩, rfl, rfl⟩

/-- `SELECT key, agg … GROUP BY key`. -/
def aggregate {γ : Type} (key : α → κ) (agg : List α → γ) (rows : List α) : List (κ × γ) :=
  (groupBy key rows).map fun g => (g.1, agg g.2)

theorem nodup_aggregate {γ : Type} (key : α → κ) (agg : List α → γ) (rows : List α) :
    ((aggregate key agg rows).map Prod.fst).Nodup := by
  have hkeys : (aggregate key agg rows).map Prod.fst = (rows.map key).dedup := by
    simp [aggregate, groupBy, List.map_map, Function.comp_def]
  rw [hkeys]
  exact List.nodup_dedup _

/-- A key has a row in the aggregate iff it has a row at all, and then that of its group. -/
theorem find?_aggregate {γ : Type} (key : α → κ) (agg : List α → γ) (rows : List α) (k : κ) :
    ((aggregate key agg rows).find? fun g => g.1 = k).map Prod.snd =
      if rows.filter (fun r => key r = k) = [] then none
      else some (agg (rows.filter fun r => key r = k)) := by
  cases h : (aggregate key agg rows).find? fun g => g.1 = k with
  | none =>
    have hnone : rows.filter (fun r => key r = k) = [] := by
      rw [List.filter_eq_nil_iff]
      intro r hr hk
      have hmem : (k, agg (rows.filter fun r => key r = k)) ∈ aggregate key agg rows :=
        List.mem_map.mpr ⟨_, mem_groupBy.mpr ⟨⟨r, hr, by simpa using hk⟩, rfl⟩, rfl⟩
      exact List.find?_eq_none.mp h _ hmem (by simp)
    rw [if_pos hnone]
    rfl
  | some g =>
    obtain ⟨⟨k', group⟩, hg, rfl⟩ := List.mem_map.mp (List.mem_of_find?_eq_some h)
    have hk : k' = k := by simpa using List.find?_some h
    subst hk
    obtain ⟨⟨r, hr, hkey⟩, rfl⟩ := mem_groupBy.mp hg
    have hne : rows.filter (fun r => key r = k') ≠ [] :=
      List.ne_nil_of_mem (List.mem_filter.mpr ⟨hr, by simpa using hkey⟩)
    rw [if_neg hne]
    rfl

end Groups

/-! ## Left joins -/

/-- Of rows with distinct keys one at most has a given key. -/
theorem filter_eq_find? [DecidableEq κ] {key : β → κ} {ys : List β} (h : (ys.map key).Nodup)
    (k : κ) : ys.filter (fun y => key y = k) = (ys.find? fun y => key y = k).toList := by
  induction ys with
  | nil => rfl
  | cons y ys ih =>
    obtain ⟨hy, hys⟩ := List.nodup_cons.mp (List.map_cons ▸ h)
    by_cases hk : key y = k
    · have hrest : ys.filter (fun y => key y = k) = [] := by
        rw [List.filter_eq_nil_iff]
        intro z hz hkz
        exact hy (List.mem_map.mpr ⟨z, hz, (of_decide_eq_true hkz).trans hk.symm⟩)
      simp [hk, hrest]
    · simpa [hk] using ih hys

/-- A left join to rows with distinct keys keeps every row once, with the row of its key. -/
theorem leftJoin_of_nodup [DecidableEq κ] {key : β → κ} (ref : α → κ) {ys : List β}
    (h : (ys.map key).Nodup) (xs : List α) :
    leftJoin (fun x y => key y = ref x) xs ys =
      xs.map fun x => (x, ys.find? fun y => key y = ref x) := by
  have hone : ∀ x, matched (fun x y => decide (key y = ref x)) ys x =
      [(x, ys.find? fun y => key y = ref x)] := by
    intro x
    unfold matched
    rw [filter_eq_find? h]
    cases ys.find? fun y => key y = ref x <;> rfl
  rw [leftJoin, List.flatMap_congr fun x _ => hone x, ← List.map_eq_flatMap]

theorem fst_of_mem_matched {on : α → β → Bool} {ys : List β} {x : α} {p : α × Option β}
    (h : p ∈ matched on ys x) : p.1 = x := by
  unfold matched at h
  split at h
  · rw [List.mem_singleton.mp h]
  · obtain ⟨_, -, rfl⟩ := List.mem_map.mp h
    rfl

theorem leftJoin_cons (on : α → β → Bool) (x : α) (xs : List α) (ys : List β) :
    leftJoin on (x :: xs) ys = matched on ys x ++ leftJoin on xs ys := rfl

theorem matched_ne_nil (on : α → β → Bool) (ys : List β) (x : α) : matched on ys x ≠ [] := by
  unfold matched
  split <;> simp

theorem filterMap_matched {γ : Type} (on : α → β → Bool) (ys : List β) (x : α) (f : β → Option γ) :
    (matched on ys x).filterMap (fun p => p.2.bind f) = (ys.filter (on x)).filterMap f := by
  unfold matched
  split
  · rename_i h
    rw [h]
    rfl
  · rename_i h
    rw [h, List.filterMap_map]
    rfl

/-- Where the rows on the left have distinct keys, the group of one of them is what it is matched
with: other rows on the left add nothing to it. -/
theorem filter_leftJoin [DecidableEq κ] {key : α → κ} {xs : List α} (hnodup : (xs.map key).Nodup)
    (on : α → β → Bool) (ys : List β) {x : α} (hx : x ∈ xs) :
    (leftJoin on xs ys).filter (fun p => key p.1 = key x) = matched on ys x := by
  have hall : ∀ z, (matched on ys z).filter (fun p => key p.1 = key x) =
      if key z = key x then matched on ys z else [] := by
    intro z
    split
    · rename_i hk
      refine List.filter_eq_self.mpr fun p hp => ?_
      rw [fst_of_mem_matched hp]
      simpa using hk
    · rename_i hk
      refine List.filter_eq_nil_iff.mpr fun p hp => ?_
      rw [fst_of_mem_matched hp]
      simpa using hk
  induction xs with
  | nil => cases hx
  | cons z xs ih =>
    obtain ⟨hz, hxs⟩ := List.nodup_cons.mp (List.map_cons ▸ hnodup)
    rw [leftJoin_cons, List.filter_append, hall]
    rcases List.mem_cons.mp hx with rfl | hx
    · have hrest : (leftJoin on xs ys).filter (fun p => key p.1 = key x) = [] := by
        refine List.filter_eq_nil_iff.mpr fun p hp hk => hz ?_
        obtain ⟨y, hy, hmem⟩ := List.mem_flatMap.mp hp
        rw [fst_of_mem_matched hmem] at hk
        exact List.mem_map.mpr ⟨y, hy, by simpa using hk⟩
      rw [if_pos rfl, hrest, List.append_nil]
    · have hne : key z ≠ key x := fun hk => hz (hk ▸ List.mem_map_of_mem hx)
      rw [if_neg hne, List.nil_append]
      exact ih hxs hx

/-- A condition on the left of a left join can be put before it. -/
theorem filter_fst_leftJoin (p : α → Bool) (on : α → β → Bool) (xs : List α) (ys : List β) :
    (leftJoin on xs ys).filter (fun q => p q.1) = leftJoin on (xs.filter p) ys := by
  induction xs with
  | nil => rfl
  | cons x xs ih =>
    have hall : ∀ q ∈ matched on ys x, p q.1 = p x := fun q hq => by rw [fst_of_mem_matched hq]
    rw [leftJoin_cons, List.filter_append, ih]
    cases hp : p x with
    | true =>
      rw [List.filter_cons_of_pos hp, leftJoin_cons,
        List.filter_eq_self.mpr fun q hq => (hall q hq).trans hp]
    | false =>
      rw [List.filter_cons_of_neg (by simp [hp]),
        List.filter_eq_nil_iff.mpr fun q hq => by simp [hall q hq, hp], List.nil_append]

/-- A row that has one match at most is once in a left join. -/
theorem map_fst_leftJoin {on : α → β → Bool} {xs : List α} {ys : List β}
    (h : ∀ x ∈ xs, (ys.filter (on x)).length ≤ 1) : (leftJoin on xs ys).map Prod.fst = xs := by
  induction xs with
  | nil => rfl
  | cons x xs ih =>
    have hhead : (matched on ys x).map Prod.fst = [x] := by
      unfold matched
      match ys.filter (on x), h x List.mem_cons_self with
      | [], _ => rfl
      | [y], _ => rfl
    rw [leftJoin_cons, List.map_append, hhead, ih fun y hy => h y (List.mem_cons_of_mem x hy),
      List.singleton_append]

/-- A join to rows with distinct keys keeps the rows whose key is there, once each. -/
theorem map_fst_join [DecidableEq κ] {key : β → κ} (ref : α → κ) {ys : List β}
    (h : (ys.map key).Nodup) (xs : List α) :
    (join (fun x y => key y = ref x) xs ys).map Prod.fst =
      xs.filter fun x => (ys.find? fun y => key y = ref x).isSome := by
  induction xs with
  | nil => rfl
  | cons x xs ih =>
    have hsplit : join (fun x y => decide (key y = ref x)) (x :: xs) ys =
        (ys.filter fun y => key y = ref x).map (Prod.mk x) ++
          join (fun x y => decide (key y = ref x)) xs ys := rfl
    rw [hsplit, List.map_append, ih, filter_eq_find? h, List.filter_cons]
    cases ys.find? fun y => key y = ref x <;> rfl

/-! ## Sums over joins -/

theorem sum_filter (p : α → Bool) (f : α → ℤ) (xs : List α) :
    ((xs.filter p).map f).sum = (xs.map fun x => if p x then f x else 0).sum := by
  induction xs with
  | nil => rfl
  | cons x xs ih => cases hp : p x <;> simp [hp, ih]

theorem sum_join (on : α → β → Bool) (xs : List α) (ys : List β) (f : α × β → ℤ) :
    ((join on xs ys).map f).sum =
      (xs.map fun x => ((ys.filter (on x)).map fun y => f (x, y)).sum).sum := by
  induction xs with
  | nil => rfl
  | cons x xs ih =>
    have hsplit : join on (x :: xs) ys = (ys.filter (on x)).map (Prod.mk x) ++ join on xs ys := rfl
    rw [hsplit, List.map_append, List.sum_append, ih, List.map_map, List.map_cons, List.sum_cons]
    rfl

end Relation
