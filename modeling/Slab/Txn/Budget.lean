import Slab.Txn.Prog

/-!
# Work that gets done

A process that is taken up again and again, and each time uses up part of a finite amount of work,
has nothing more to do from some time on. Programs that never stop with an error are composed of
such programs.

## Main definitions

- `Prog.Completes` — the program never stops with an error

## Main results

- `sum_spent_le` — no more is spent than there was
- `exists_quiet` — from some time on nothing is spent
-/

namespace Txn

/-! ## Amounts -/

section Amounts

variable {work : ℕ → ℤ} {spent : ℕ → ℕ}

/-- No more is spent than there was at first. -/
theorem sum_spent_le (hstep : ∀ i, work (i + 1) + spent i ≤ work i) (hnonneg : ∀ i, 0 ≤ work i)
    (n : ℕ) : ∑ i ∈ Finset.range n, (spent i : ℤ) ≤ work 0 := by
  have htotal : work n + ∑ i ∈ Finset.range n, (spent i : ℤ) ≤ work 0 := by
    induction n with
    | zero => simp
    | succ n ih =>
      rw [Finset.sum_range_succ]
      have := hstep n
      linarith
  have := hnonneg n
  linarith

/-- From some time on nothing is spent. -/
theorem exists_quiet (hstep : ∀ i, work (i + 1) + spent i ≤ work i) (hnonneg : ∀ i, 0 ≤ work i) :
    ∃ n, ∀ i, n ≤ i → spent i = 0 := by
  -- each time that something is spent there is less to begin with
  induction hw : (work 0).toNat using Nat.strong_induction_on generalizing work spent with
  | _ w ih =>
    by_cases hquiet : ∀ i, spent i = 0
    · exact ⟨0, fun i _ => hquiet i⟩
    · obtain ⟨k, hk⟩ := not_forall.mp hquiet
      have hless : work (k + 1) < work 0 := by
        have hfalls : ∀ n, work n ≤ work 0 := by
          intro n
          induction n with
          | zero => exact le_refl _
          | succ n ih => exact le_trans (by have := hstep n; omega) ih
        have := hstep k
        have := hfalls k
        omega
      have hpos := hnonneg (k + 1)
      obtain ⟨n, hn⟩ := @ih (work (k + 1)).toNat (by omega) (fun i => work (k + 1 + i))
        (fun i => spent (k + 1 + i)) (fun i => hstep (k + 1 + i)) (fun i => hnonneg (k + 1 + i)) rfl
      refine ⟨k + 1 + n, fun i hi => ?_⟩
      have hlater := hn (i - (k + 1)) (by omega)
      rwa [show k + 1 + (i - (k + 1)) = i by omega] at hlater

end Amounts

/-! ## Programs that complete -/

namespace Prog

variable {σ κ Q ε α β : Type} {A : Q → Type}

/-- The program never stops with an error. -/
def Completes (p : Prog σ κ A ε α) : Prop := ∀ v w r, p.Runs v w r → ∃ a, r = .ok a

theorem runs_selectSkipLocked {keys : σ → List κ} {limit : ℕ} {f : σ → List κ → β} {v w : σ}
    {r : Except ε β} : (selectSkipLocked keys limit f : Prog σ κ A ε β).Runs v w r ↔
      w = v ∧ r = .ok (f v ((keys v).take limit)) := Iff.rfl

theorem completes_ret (a : α) : (ret a : Prog σ κ A ε α).Completes :=
  fun _ _ _ h => ⟨a, h.2⟩

theorem completes_ask (q : Q) : (ask q : Prog σ κ A ε (A q)).Completes :=
  fun _ _ _ h => (runs_ask.mp h).2

theorem completes_select (f : σ → β) : (select f : Prog σ κ A ε β).Completes :=
  fun v _ _ h => ⟨f v, h.2⟩

theorem completes_update (keys : σ → List κ) (g : σ → σ) :
    (update keys g : Prog σ κ A ε Unit).Completes :=
  fun _ _ _ h => ⟨(), h.2⟩

theorem completes_insertMissing (keys : σ → List κ) (g : σ → σ) :
    (insertMissing keys g : Prog σ κ A ε Unit).Completes :=
  fun _ _ _ h => ⟨(), h.2⟩

theorem Completes.bind {p : Prog σ κ A ε α} {f : α → Prog σ κ A ε β} (hp : p.Completes)
    (hf : ∀ a, (f a).Completes) : (p >>= f).Completes := by
  intro v w r h
  rcases runs_bind.mp h with ⟨u, a, -, hr⟩ | ⟨e, -, he⟩
  · exact hf a u w r hr
  · obtain ⟨a, ha⟩ := hp v w _ he
    cases ha

theorem completes_forEach {ι : Type} {xs : List ι} {body : ι → Prog σ κ A ε Unit}
    (h : ∀ x ∈ xs, (body x).Completes) : (forEach xs body).Completes := by
  induction xs with
  | nil => exact completes_ret ()
  | cons x xs ih =>
    exact (h x List.mem_cons_self).bind fun _ => ih fun y hy => h y (List.mem_cons_of_mem x hy)

end Prog

end Txn
