import Mathlib

/-!
# Runs of a machine

A machine says what an action does to a state, where it is possible at all. Its runs are the
sequences of actions that meet a side condition; what every step keeps, every run keeps.

## Main definitions

- `Machine` — the effect of an action
- `Machine.Run` — any sequence of actions that meet a side condition
- `Machine.play` — one sequence of actions, as a function

## Main results

- `Machine.Run.invariant`, `Machine.Run.related` — from one step to all of them
-/

namespace Txn

/-- What an action does to a state; `none` where it is not possible. -/
abbrev Machine (σ α : Type) := σ → α → Option σ

namespace Machine

variable {σ α : Type} {M : Machine σ α} {ok : σ → α → Prop}

/-- A run from `s`: any sequence of actions that meet `ok`. -/
inductive Run (M : Machine σ α) (ok : σ → α → Prop) (s : σ) : σ → Prop where
  | refl : Run M ok s s
  | tail {t u : σ} {a : α} (hr : Run M ok s t) (hok : ok t a) (hs : M t a = some u) : Run M ok s u

theorem Run.trans {s t u : σ} (h : Run M ok s t) (h' : Run M ok t u) : Run M ok s u := by
  induction h' with
  | refl => exact h
  | tail _ hok hs ih => exact ih.tail hok hs

/-- The actions of a list, in order, each one only where `test` allows it. -/
def play (M : Machine σ α) (test : σ → α → Bool) : σ → List α → Option σ
  | s, [] => some s
  | s, a :: as => if test s a then (M s a).bind fun t => play M test t as else none

/-- The last action of a list. -/
theorem play_concat {test : σ → α → Bool} {s u : σ} {as : List α} {a : α} :
    M.play test s (as ++ [a]) = some u ↔
      ∃ t, M.play test s as = some t ∧ test t a = true ∧ M t a = some u := by
  induction as generalizing s with
  | nil => simp [play, Option.ite_none_right_eq_some]
  | cons b as ih =>
    simp only [List.cons_append, play]
    by_cases hb : test s b = true
    · simp only [if_pos hb, Option.bind_eq_some_iff, ih]
      constructor
      · rintro ⟨t, ht, u', hu', hlast⟩
        exact ⟨u', ⟨t, ht, hu'⟩, hlast⟩
      · rintro ⟨u', ⟨t, ht, hu'⟩, hlast⟩
        exact ⟨t, ht, u', hu', hlast⟩
    · simp [if_neg hb]

theorem Run.of_play {test : σ → α → Bool} (htest : ∀ s a, test s a = true → ok s a)
    {s t u : σ} {as : List α} (hr : Run M ok s t) (h : M.play test t as = some u) :
    Run M ok s u := by
  induction as generalizing t with
  | nil =>
    cases h
    exact hr
  | cons a as ih =>
    rw [play] at h
    split at h
    · next hok =>
      obtain ⟨v, hv, hrest⟩ := Option.bind_eq_some_iff.mp h
      exact ih (hr.tail (htest t a hok) hv) hrest
    · cases h

/-- What holds at the start and is kept by every step holds at the end. -/
theorem Run.invariant {P : σ → Prop} {s t : σ} (h : Run M ok s t) (h0 : P s)
    (hstep : ∀ t a u, P t → ok t a → M t a = some u → P u) : P t := by
  induction h with
  | refl => exact h0
  | tail _ hok hs ih => exact hstep _ _ _ ih hok hs

/-- A relation between the states before and after each step, in states that meet an invariant,
relates the ends of every run. -/
theorem Run.related {P : σ → Prop} {R : σ → σ → Prop} {s t : σ} (h : Run M ok s t) (h0 : P s)
    (hstep : ∀ t a u, P t → ok t a → M t a = some u → P u ∧ R t u) (hrefl : ∀ s, R s s)
    (htrans : ∀ s t u, R s t → R t u → R s u) : R s t := by
  have hboth : P t ∧ R s t := by
    induction h with
    | refl => exact ⟨h0, hrefl s⟩
    | tail _ hok hs ih =>
      obtain ⟨hP, hR⟩ := hstep _ _ _ ih.1 hok hs
      exact ⟨hP, htrans _ _ _ ih.2 hR⟩
  exact hboth.2

end Machine

end Txn
