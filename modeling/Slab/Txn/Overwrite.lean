import Slab.Txn.Table

/-!
# Maps that writes overwrite

`insert` of a hash map keeps one value for each key, that of the last write. What a sequence of
writes leaves is therefore known from the sequence alone, up to the order in which the map lists
its entries.

## Main definitions

- `Table.put`, `Table.putAll` — write one row, or several in order
- `IsLast` — a write that no later write of the list overwrites

## Main results

- `Table.mem_putAll` — what is left are the last writes
-/

namespace Txn

variable {ρ σ κ : Type} {key : ρ → κ} {rs ss : List ρ} {r : ρ}

/-- Among the writes `rs`, `r` is the last one under its key. -/
def IsLast (key : ρ → κ) (rs : List ρ) (r : ρ) : Prop :=
  ∃ before after, rs = before ++ r :: after ∧ ∀ s ∈ after, key s ≠ key r

namespace IsLast

theorem mem (h : IsLast key rs r) : r ∈ rs := by
  obtain ⟨before, after, rfl, -⟩ := h
  exact List.mem_append_right _ List.mem_cons_self

theorem append_right (h : IsLast key ss r) : IsLast key (rs ++ ss) r := by
  obtain ⟨before, after, rfl, hafter⟩ := h
  exact ⟨rs ++ before, after, (List.append_assoc ..).symm, hafter⟩

theorem append_left (h : IsLast key rs r) (hss : ∀ s ∈ ss, key s ≠ key r) :
    IsLast key (rs ++ ss) r := by
  obtain ⟨before, after, rfl, hafter⟩ := h
  refine ⟨before, after ++ ss, by simp, fun s hs => ?_⟩
  rcases List.mem_append.mp hs with hs | hs
  · exact hafter s hs
  · exact hss s hs

end IsLast

/-- The last writes of a list of writes in two parts. -/
theorem isLast_append :
    IsLast key (rs ++ ss) r ↔
      IsLast key ss r ∨ IsLast key rs r ∧ ∀ s ∈ ss, key s ≠ key r := by
  constructor
  · rintro ⟨before, after, heq, hafter⟩
    rcases List.append_eq_append_iff.mp heq with ⟨mid, rfl, hss⟩ | ⟨mid, rfl, hmid⟩
    · exact .inl ⟨mid, after, hss, hafter⟩
    · cases mid with
      | nil => exact .inl ⟨[], after, hmid.symm, hafter⟩
      | cons s mid =>
        obtain ⟨rfl, rfl⟩ := List.cons_eq_cons.mp hmid
        refine .inr ⟨⟨before, mid, rfl, fun s hs => ?_⟩, fun s hs => ?_⟩
        · exact hafter s (List.mem_append_left _ hs)
        · exact hafter s (List.mem_append_right _ hs)
  · rintro (h | ⟨h, hss⟩)
    · exact h.append_right
    · exact h.append_left hss

theorem not_isLast_nil : ¬IsLast key [] r := fun h => absurd h.mem List.not_mem_nil

theorem isLast_singleton {s : ρ} : IsLast key [s] r ↔ r = s := by
  constructor
  · intro h
    exact List.mem_singleton.mp h.mem
  · rintro rfl
    exact ⟨[], [], rfl, fun s h => absurd h List.not_mem_nil⟩

theorem isLast_concat {s : ρ} :
    IsLast key (rs ++ [s]) r ↔ r = s ∨ IsLast key rs r ∧ key s ≠ key r := by
  rw [isLast_append, isLast_singleton]
  simp only [List.mem_singleton, forall_eq]

theorem isLast_cons {s : ρ} :
    IsLast key (s :: rs) r ↔ IsLast key rs r ∨ r = s ∧ ∀ t ∈ rs, key t ≠ key r := by
  rw [← List.singleton_append, isLast_append, isLast_singleton]

/-- Writes that are made from other values. -/
theorem isLast_map {f : σ → ρ} {xs : List σ} :
    IsLast key (xs.map f) r ↔ ∃ x, IsLast (fun x => key (f x)) xs x ∧ f x = r := by
  constructor
  · rintro ⟨before, after, heq, hafter⟩
    obtain ⟨xs₁, xs₂, rfl, rfl, hrest⟩ := List.map_eq_append_iff.mp heq
    obtain ⟨x, xs₃, rfl, rfl, rfl⟩ := List.map_eq_cons_iff.mp hrest
    exact ⟨x, ⟨xs₁, xs₃, rfl, fun y hy => hafter (f y) (List.mem_map_of_mem hy)⟩, rfl⟩
  · rintro ⟨x, ⟨before, after, rfl, hafter⟩, rfl⟩
    refine ⟨before.map f, after.map f, by simp, fun s hs => ?_⟩
    obtain ⟨y, hy, rfl⟩ := List.mem_map.mp hs
    exact hafter y hy

/-- Under each key that is written there is a last write. -/
theorem exists_isLast (h : r ∈ rs) : ∃ s, IsLast key rs s ∧ key s = key r := by
  induction rs using List.reverseRecOn with
  | nil => exact absurd h List.not_mem_nil
  | append_singleton rs s ih =>
    by_cases hs : key s = key r
    · exact ⟨s, isLast_concat.mpr (.inl rfl), hs⟩
    · have hr : r ∈ rs := by
        refine (List.mem_append.mp h).resolve_right fun hr => ?_
        rw [List.mem_singleton.mp hr] at hs
        exact hs rfl
      obtain ⟨t, ht, htr⟩ := ih hr
      exact ⟨t, isLast_concat.mpr (.inr ⟨ht, fun h => hs (h.trans htr)⟩), htr⟩

namespace Table

variable [DecidableEq κ]

/-- Write a row, over the row with the same key if there is one. -/
def put (r : ρ) (t : Table key) : Table key where
  rows := t.rows.filter (fun s => key s ≠ key r) ++ [r]
  nodup := by
    rw [List.map_append]
    refine List.Nodup.append (t.nodup.sublist (List.filter_sublist.map key))
      (List.nodup_singleton _) ?_
    rw [List.map_singleton, List.disjoint_singleton]
    intro h
    obtain ⟨s, hs, heq⟩ := List.mem_map.mp h
    exact absurd heq (of_decide_eq_true (List.mem_filter.mp hs).2)

def putAll (rs : List ρ) (t : Table key) : Table key := rs.foldl (fun t r => t.put r) t

theorem mem_rows_put {t : Table key} {s : ρ} :
    s ∈ (t.put r).rows ↔ s = r ∨ s ∈ t.rows ∧ key r ≠ key s := by
  have hrows : (t.put r).rows = t.rows.filter (fun s => key s ≠ key r) ++ [r] := rfl
  rw [hrows, List.mem_append, List.mem_singleton, List.mem_filter, decide_eq_true_iff, or_comm,
    ne_comm]

/-- A map that has been filled from nothing holds the last writes. -/
theorem mem_putAll : r ∈ ((empty : Table key).putAll rs).rows ↔ IsLast key rs r := by
  induction rs using List.reverseRecOn generalizing r with
  | nil => exact ⟨fun h => absurd h List.not_mem_nil, fun h => absurd h not_isLast_nil⟩
  | append_singleton rs s ih =>
    rw [putAll, List.foldl_append]
    show r ∈ (((empty : Table key).putAll rs).put s).rows ↔ _
    rw [mem_rows_put, ih, isLast_concat]

/-- Writes under keys that differ are all kept, in order. -/
theorem rows_putAll {rs : List ρ} {t : Table key} (h : ((t.rows ++ rs).map key).Nodup) :
    (t.putAll rs).rows = t.rows ++ rs := by
  induction rs generalizing t with
  | nil => exact (List.append_nil _).symm
  | cons r rs ih =>
    have hrows : (t.put r).rows = t.rows ++ [r] := by
      show t.rows.filter (fun s => key s ≠ key r) ++ [r] = _
      congr 1
      refine List.filter_eq_self.mpr fun s hs => decide_eq_true fun heq => ?_
      rw [List.map_append] at h
      have hleft : key s ∈ t.rows.map key := List.mem_map_of_mem hs
      have hright : key s ∈ (r :: rs).map key := heq ▸ List.mem_cons_self
      exact List.disjoint_of_nodup_append h hleft hright
    have hassoc : t.rows ++ r :: rs = (t.put r).rows ++ rs := by
      rw [hrows, List.append_assoc, List.singleton_append]
    show ((t.put r).putAll rs).rows = _
    rw [ih (hassoc ▸ h), hassoc]

end Table

end Txn
