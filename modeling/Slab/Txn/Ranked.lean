import Mathlib

/-!
# The first rows of an order

`ORDER BY … LIMIT n` returns the rows with fewer than `n` rows before them. Two orders therefore
select the same rows as soon as they agree on that count.
-/

namespace Txn

variable {α : Type}

/-- In a list that is strictly ordered, the first `n` elements are those with fewer than `n`
elements before them. -/
theorem mem_take_iff {before : α → α → Prop} [DecidableRel before] {l : List α}
    (hord : l.Pairwise before) (hirrefl : ∀ x, ¬before x x)
    (hasymm : ∀ x y, before x y → ¬before y x) {n : ℕ} {x : α} :
    x ∈ l.take n ↔ x ∈ l ∧ l.countP (fun y => before y x) < n := by
  induction l generalizing n with
  | nil => simp
  | cons y l ih =>
    obtain ⟨hy, hl⟩ := List.pairwise_cons.mp hord
    cases n with
    | zero => simp
    | succ n =>
      rw [List.take_succ_cons, List.mem_cons, ih hl, List.mem_cons, List.countP_cons]
      by_cases hxy : x = y
      · subst hxy
        have hzero : l.countP (fun z => before z x) = 0 :=
          List.countP_eq_zero.mpr fun z hz => by simpa using hasymm x z (hy z hz)
        simp [hzero, hirrefl x]
      · by_cases hx : x ∈ l
        · have hbefore : before y x := hy x hx
          simp only [hxy, hx, hbefore, true_and, false_or, decide_true, if_true]
          omega
        · simp [hxy, hx]

/-- The same for the first `n` of the rows sorted by a total order. -/
theorem mem_take_insertionSort {le : α → α → Prop} [DecidableRel le]
    (htotal : ∀ x y, le x y ∨ le y x) (htrans : ∀ x y z, le x y → le y z → le x z)
    {l : List α} (hanti : ∀ x ∈ l, ∀ y ∈ l, le x y → le y x → x = y) (hnodup : l.Nodup)
    {n : ℕ} {x : α} :
    x ∈ (l.insertionSort le).take n ↔ x ∈ l ∧ l.countP (fun y => ¬le x y) < n := by
  have hperm := List.perm_insertionSort le l
  have hsorted : (l.insertionSort le).Pairwise le :=
    haveI : Std.Total le := ⟨htotal⟩
    haveI : IsTrans α le := ⟨htrans⟩
    List.pairwise_insertionSort le l
  have hstrict : (l.insertionSort le).Pairwise fun y x => ¬le x y := by
    have hboth := hsorted.and (hperm.nodup_iff.mpr hnodup)
    refine hboth.imp_of_mem fun {y z} hy hz hyz hzy => ?_
    exact hyz.2 (hanti y (hperm.mem_iff.mp hy) z (hperm.mem_iff.mp hz) hyz.1 hzy)
  have hirrefl : ∀ x, ¬¬le x x := fun x h => h ((htotal x x).elim id id)
  have hasymm : ∀ x y, ¬le y x → ¬¬le x y := fun x y h hn => hn ((htotal x y).resolve_right h)
  rw [mem_take_iff hstrict hirrefl hasymm, hperm.mem_iff, hperm.countP_eq]

end Txn
