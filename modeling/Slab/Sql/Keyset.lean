import Mathlib.Data.List.Sort

/-!
# Lists in the order of a key

Rows with distinct keys have one descending order, and the rows below one of them are those that
follow it.

## Main definitions

- `Descending` — in strictly descending order of the key
- `sortDesc` — the rows in descending order

## Main results

- `sortDesc_eq` — the order is determined by the rows
- `Descending.filter_lt` — the rows below a row
-/

namespace Keyset

variable {α κ : Type} [LinearOrder κ] {key : α → κ} {l l' r : List α} {x : α}

/-- In strictly descending order of the key. -/
def Descending (key : α → κ) (l : List α) : Prop := l.Pairwise fun a b => key b < key a

def sortDesc (key : α → κ) (l : List α) : List α := l.mergeSort fun a b => key b ≤ key a

theorem sortDesc_perm (key : α → κ) (l : List α) : (sortDesc key l).Perm l :=
  List.mergeSort_perm l _

theorem descending_sortDesc (h : (l.map key).Nodup) : Descending key (sortDesc key l) := by
  have hsorted : (sortDesc key l).Pairwise fun a b => decide (key b ≤ key a) = true := by
    refine List.pairwise_mergeSort (fun a b c hab hbc => ?_) (fun a b => ?_) l
    · simp only [decide_eq_true_eq] at hab hbc ⊢
      exact hbc.trans hab
    · simpa using le_total (key b) (key a)
  have hdistinct : (sortDesc key l).Pairwise fun a b => key a ≠ key b := by
    rw [← List.pairwise_map]
    exact (sortDesc_perm key l).map key |>.nodup_iff.mpr h
  refine (hsorted.and hdistinct).imp fun ⟨hle, hne⟩ => ?_
  exact lt_of_le_of_ne (of_decide_eq_true hle) (Ne.symm hne)

theorem Descending.nodup (h : Descending key l) : (l.map key).Nodup := by
  rw [List.Nodup, List.pairwise_map]
  exact h.imp fun hlt => hlt.ne'

/-- A list with given members has one descending order. -/
theorem Descending.eq_of_perm (hl : Descending key l) (hl' : Descending key l') (h : l.Perm l') :
    l = l' := by
  refine h.eq_of_pairwise (fun a b _ _ hab hba => ?_) hl hl'
  exact absurd hba hab.asymm

theorem sortDesc_eq (hl : Descending key l) (h : l'.Perm l) : sortDesc key l' = l := by
  have hdistinct : (l'.map key).Nodup := (h.map key).nodup_iff.mpr hl.nodup
  exact (descending_sortDesc hdistinct).eq_of_perm hl ((sortDesc_perm key l').trans h)

/-- The rows below a row are those behind it. -/
theorem Descending.filter_lt (h : Descending key (l ++ x :: r)) :
    (l ++ x :: r).filter (fun a => key a < key x) = r := by
  obtain ⟨-, hright, hcross⟩ := List.pairwise_append.mp h
  obtain ⟨hbelow, -⟩ := List.pairwise_cons.mp hright
  have habove : l.filter (fun a => key a < key x) = [] := by
    rw [List.filter_eq_nil_iff]
    intro a ha
    have hlt := hcross a ha x List.mem_cons_self
    simpa using hlt.le
  have hkept : r.filter (fun a => key a < key x) = r := by
    rw [List.filter_eq_self]
    exact fun a ha => decide_eq_true (hbelow a ha)
  rw [List.filter_append, habove, List.nil_append, List.filter_cons, if_neg (by simp), hkept]

theorem Descending.append_right (h : Descending key (l ++ r)) : Descending key r :=
  (List.pairwise_append.mp h).2.1

end Keyset
