import Mathlib

/-!
# Truncated averages

The weighted average of two integers, rounded to zero, and the moving average that feeds each
rounded result into the next one.

## Main definitions

- `average` — the weighted average of two values, rounded
- `Moving` — a moving average with the weight it stands for; `Moving.add` takes one value more

## Main results

- `average_mem_uIcc`, `abs_average_sub_lt` — the average lies between the values, and is less than
  one from the exact one
- `Moving.tracks_addAll` — how far the moving average is from the exact one after any additions
-/

namespace Average

variable {a b m : ℤ}

/-- A truncated quotient is at least every integer that the exact one is. -/
theorem le_tdiv (hb : 0 < b) (h : m * b ≤ a) : m ≤ a.tdiv b := by
  have hdiv := Int.mul_tdiv_add_tmod a b
  have hmod := Int.tmod_lt_of_pos a hb
  by_contra hlt
  have hmul : b * (a.tdiv b + 1) ≤ b * m := mul_le_mul_of_nonneg_left (by omega) hb.le
  nlinarith only [hdiv, hmod, hmul, h]

theorem tdiv_le (hb : 0 < b) (h : a ≤ m * b) : a.tdiv b ≤ m := by
  have hneg := le_tdiv (a := -a) (m := -m) hb (by linarith)
  rw [Int.neg_tdiv] at hneg
  omega

/-- The quotient is less than one from the exact one. -/
theorem abs_sub_tdiv_mul_lt (hb : 0 < b) : |a - a.tdiv b * b| < b := by
  have hdiv := Int.mul_tdiv_add_tmod a b
  have hlt := Int.tmod_lt_of_pos a hb
  have hgt := Int.lt_tmod_of_pos a hb
  have he : a - a.tdiv b * b = a.tmod b := by linarith
  rw [he, abs_lt]
  exact ⟨hgt, hlt⟩

/-- The weighted average of `c₁` and `c₂`, rounded to zero. -/
def average (q₁ c₁ q₂ c₂ : ℤ) : ℤ := (q₁ * c₁ + q₂ * c₂).tdiv (q₁ + q₂)

/-- The exact weighted average. -/
def exact (q₁ c₁ q₂ c₂ : ℤ) : ℚ := (q₁ * c₁ + q₂ * c₂) / (q₁ + q₂)

section Bounds

variable {q₁ c₁ q₂ c₂ : ℤ}

/-- The average lies between the two values. -/
theorem average_mem_uIcc (h₁ : 0 ≤ q₁) (h₂ : 0 < q₂) : average q₁ c₁ q₂ c₂ ∈ Set.uIcc c₁ c₂ := by
  have hmin₁ := mul_le_mul_of_nonneg_left (min_le_left c₁ c₂) h₁
  have hmin₂ := mul_le_mul_of_nonneg_left (min_le_right c₁ c₂) h₂.le
  have hmax₁ := mul_le_mul_of_nonneg_left (le_max_left c₁ c₂) h₁
  have hmax₂ := mul_le_mul_of_nonneg_left (le_max_right c₁ c₂) h₂.le
  constructor
  · apply le_tdiv (by omega)
    calc min c₁ c₂ * (q₁ + q₂) = q₁ * min c₁ c₂ + q₂ * min c₁ c₂ := by ring
      _ ≤ q₁ * c₁ + q₂ * c₂ := add_le_add hmin₁ hmin₂
  · apply tdiv_le (by omega)
    calc q₁ * c₁ + q₂ * c₂ ≤ q₁ * max c₁ c₂ + q₂ * max c₁ c₂ := add_le_add hmax₁ hmax₂
      _ = max c₁ c₂ * (q₁ + q₂) := by ring

/-- The average is less than one from the exact average. -/
theorem abs_average_sub_lt (h₁ : 0 ≤ q₁) (h₂ : 0 < q₂) :
    |(average q₁ c₁ q₂ c₂ : ℚ) - exact q₁ c₁ q₂ c₂| < 1 := by
  have hpos : 0 < q₁ + q₂ := by omega
  have hq : (0 : ℚ) < q₁ + q₂ := by exact_mod_cast hpos
  have hsub := abs_sub_tdiv_mul_lt (a := q₁ * c₁ + q₂ * c₂) hpos
  have hcast : |(q₁ * c₁ + q₂ * c₂ : ℚ) - average q₁ c₁ q₂ c₂ * (q₁ + q₂)| < q₁ + q₂ := by
    exact_mod_cast hsub
  have he : (average q₁ c₁ q₂ c₂ : ℚ) - exact q₁ c₁ q₂ c₂ =
      -(((q₁ * c₁ + q₂ * c₂ : ℚ) - average q₁ c₁ q₂ c₂ * (q₁ + q₂)) / (q₁ + q₂)) := by
    rw [exact]
    field_simp
    ring
  rw [he, abs_neg, abs_div, abs_of_pos hq, div_lt_one hq]
  exact hcast

end Bounds

/-! ## Moving averages -/

/-- A moving average and the weight it stands for. -/
structure Moving where
  value : ℤ
  weight : ℤ
deriving DecidableEq

namespace Moving

/-- Nothing has been averaged yet. -/
def empty : Moving := ⟨0, 0⟩

/-- One value more; the first one is the average. -/
def add (s : Moving) (q c : ℤ) : Moving where
  value := if 0 < s.weight then average s.weight s.value q c else c
  weight := s.weight + q

def addAll (s : Moving) (xs : List (ℤ × ℤ)) : Moving := xs.foldl (fun s x => s.add x.1 x.2) s

/-- After `n` additions of weights `weight` and total `total`, none of them negative, the average
is at most the exact one and less than `n` below it. -/
structure Tracks (s : Moving) (n : ℕ) (total : ℤ) : Prop where
  nonneg : 0 ≤ s.value
  weight : n = 0 ∧ s.weight = 0 ∧ total = 0 ∨ 0 < n ∧ 0 < s.weight
  below : s.value * s.weight ≤ total
  near : total - s.value * s.weight ≤ n * s.weight
  nearer : 0 < n → total - s.value * s.weight < n * s.weight

theorem tracks_empty : empty.Tracks 0 0 where
  nonneg := le_rfl
  weight := .inl ⟨rfl, rfl, rfl⟩
  below := by decide
  near := by decide
  nearer h := absurd h (lt_irrefl 0)

/-- An old error is spread over the greater weight, and the new one is less than one for each unit
of it. -/
theorem Tracks.add {s : Moving} {n : ℕ} {total q c : ℤ} (h : s.Tracks n total) (hq : 0 < q)
    (hc : 0 ≤ c) : (s.add q c).Tracks (n + 1) (total + q * c) := by
  rcases h.weight with ⟨rfl, hw, rfl⟩ | ⟨hn, hw⟩
  · have hadd : s.add q c = ⟨c, q⟩ := by simp [Moving.add, hw]
    rw [hadd]
    refine ⟨hc, .inr ⟨by omega, hq⟩, ?_, ?_, fun _ => ?_⟩
    · linarith [mul_comm c q]
    · push_cast
      linarith [mul_comm c q]
    · push_cast
      linarith [mul_comm c q]
  · set a := average s.weight s.value q c with ha
    have hadd : s.add q c = ⟨a, s.weight + q⟩ := by simp [Moving.add, hw, ha]
    have hsum : 0 ≤ s.weight * s.value + q * c :=
      add_nonneg (mul_nonneg hw.le h.nonneg) (mul_nonneg hq.le hc)
    have hpos : 0 < s.weight + q := by omega
    have hfloor : a = (s.weight * s.value + q * c) / (s.weight + q) :=
      Int.tdiv_eq_ediv_of_nonneg hsum
    have hle : a * (s.weight + q) ≤ s.weight * s.value + q * c := by
      rw [hfloor]
      exact Int.ediv_mul_le _ hpos.ne'
    have hlt : s.weight * s.value + q * c < (a + 1) * (s.weight + q) := by
      rw [hfloor]
      exact Int.lt_ediv_add_one_mul_self _ hpos
    have hgrow : (n : ℤ) * s.weight ≤ n * (s.weight + q) :=
      mul_le_mul_of_nonneg_left (by omega) (by omega)
    have hnear : total + q * c - a * (s.weight + q) < (n + 1) * (s.weight + q) := by
      have hold := h.near
      nlinarith only [hold, hlt, hgrow]
    rw [hadd]
    refine ⟨?_, .inr ⟨by omega, hpos⟩, ?_, ?_, fun _ => ?_⟩
    · rw [hfloor]
      exact Int.ediv_nonneg hsum hpos.le
    · have hold := h.below
      nlinarith only [hold, hle]
    · push_cast
      exact hnear.le
    · push_cast
      exact hnear

/-- The moving average after any additions of positive weights and values that are not negative. -/
theorem tracks_addAll {s : Moving} {n : ℕ} {total : ℤ} (h : s.Tracks n total)
    {xs : List (ℤ × ℤ)} (hxs : ∀ x ∈ xs, 0 < x.1 ∧ 0 ≤ x.2) :
    (s.addAll xs).Tracks (n + xs.length) (total + (xs.map fun x => x.1 * x.2).sum) := by
  induction xs generalizing s n total with
  | nil => simpa [addAll] using h
  | cons x xs ih =>
    obtain ⟨hq, hc⟩ := hxs x List.mem_cons_self
    have hrest := ih (h.add hq hc) fun y hy => hxs y (List.mem_cons_of_mem x hy)
    have hn : n + (x :: xs).length = n + 1 + xs.length := by
      rw [List.length_cons]
      omega
    rw [hn, List.map_cons, List.sum_cons, ← add_assoc]
    exact hrest

/-- The same against the exact average. -/
theorem Tracks.exact {s : Moving} {n : ℕ} {total : ℤ} (h : s.Tracks n total) (hn : 0 < n) :
    (s.value : ℚ) ≤ total / s.weight ∧ (total : ℚ) / s.weight - s.value < n := by
  have hw : 0 < s.weight := by
    rcases h.weight with ⟨hz, -⟩ | ⟨-, hw⟩
    · omega
    · exact hw
  have hq : (0 : ℚ) < s.weight := by exact_mod_cast hw
  have hbelow : (s.value : ℚ) * s.weight ≤ total := by exact_mod_cast h.below
  have hnear : (total : ℚ) - s.value * s.weight < n * s.weight := by exact_mod_cast h.nearer hn
  constructor
  · rwa [le_div_iff₀ hq]
  · rw [sub_lt_iff_lt_add, div_lt_iff₀ hq]
    linarith

end Moving

end Average
