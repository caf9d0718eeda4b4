import Mathlib

/-!
# Machine integers

Integer arithmetic as a program computes it: in `ℤ`, followed by `norm`, which brings the
result back into the word. `Arith.exact` never has to; `Arith.i64` wraps.
-/

namespace Txn

/-- Integer arithmetic up to a normal form that is compatible with addition. -/
structure Arith where
  norm : ℤ → ℤ
  norm_add : ∀ a b, norm (norm a + b) = norm (a + b)

namespace Arith

/-- Exact integers. -/
def exact : Arith := ⟨fun x => x, fun _ _ => rfl⟩

/-- 64-bit two's complement that wraps on overflow. -/
def i64 : Arith := ⟨fun x => x.bmod (2 ^ 64), fun _ _ => Int.bmod_add_bmod ..⟩

/-- 32-bit two's complement. -/
def i32 : Arith := ⟨fun x => x.bmod (2 ^ 32), fun _ _ => Int.bmod_add_bmod ..⟩

/-- 16-bit two's complement. -/
def i16 : Arith := ⟨fun x => x.bmod (2 ^ 16), fun _ _ => Int.bmod_add_bmod ..⟩

variable (ar : Arith)

def add (a b : ℤ) : ℤ := ar.norm (a + b)

def sub (a b : ℤ) : ℤ := ar.norm (a - b)

def mul (a b : ℤ) : ℤ := ar.norm (a * b)

/-- Division rounding to zero; `none` (a panic) by zero and when the quotient overflows. -/
def div? (a b : ℤ) : Option ℤ :=
  if b = 0 then none
  else if ar.norm (a.tdiv b) = a.tdiv b then some (a.tdiv b) else none

/-- `x` fits in the word. -/
def Fits (x : ℤ) : Prop := ar.norm x = x

instance (x : ℤ) : Decidable (ar.Fits x) := inferInstanceAs (Decidable (ar.norm x = x))

/-- `x` where it fits: arithmetic with overflow checks. -/
def check? (x : ℤ) : Option ℤ := if ar.Fits x then some x else none

/-- `q` plus the numbers of a list, added one after another. -/
def addAll (q : ℤ) (xs : List ℤ) : ℤ := xs.foldl ar.add q

variable {ar}

@[simp] theorem addAll_nil (q : ℤ) : ar.addAll q [] = q := rfl

@[simp] theorem addAll_cons (q x : ℤ) (xs : List ℤ) :
    ar.addAll q (x :: xs) = ar.addAll (ar.add q x) xs := rfl

theorem addAll_append (q : ℤ) (xs ys : List ℤ) :
    ar.addAll q (xs ++ ys) = ar.addAll (ar.addAll q xs) ys := List.foldl_append

@[simp] theorem exact_norm (x : ℤ) : exact.norm x = x := rfl

@[simp] theorem exact_add (a b : ℤ) : exact.add a b = a + b := rfl

@[simp] theorem exact_sub (a b : ℤ) : exact.sub a b = a - b := rfl

@[simp] theorem exact_fits (x : ℤ) : exact.Fits x := rfl

theorem norm_norm (x : ℤ) : ar.norm (ar.norm x) = ar.norm x := by
  have h := ar.norm_add x 0
  simpa using h

theorem norm_add_congr {a b : ℤ} (c : ℤ) (h : ar.norm a = ar.norm b) :
    ar.norm (a + c) = ar.norm (b + c) := by
  rw [← ar.norm_add a, h, ar.norm_add]

/-- Numbers may be brought into the word before they are summed. -/
theorem norm_sum {ι : Type} (s : Finset ι) (f : ι → ℤ) :
    ar.norm (∑ i ∈ s, ar.norm (f i)) = ar.norm (∑ i ∈ s, f i) := by
  classical
  induction s using Finset.induction with
  | empty => rfl
  | insert i s hi ih =>
    rw [Finset.sum_insert hi, Finset.sum_insert hi, ar.norm_add, add_comm, norm_add_congr _ ih,
      add_comm]

theorem check?_eq_some {x y : ℤ} : ar.check? x = some y ↔ ar.Fits x ∧ x = y := by
  unfold check?
  split
  · next h => simp [h]
  · next h => simp [h]

/-- A checked computation goes on iff its first number fits. -/
theorem check?_bind_isSome {α : Type} {x : ℤ} {f : ℤ → Option α} :
    (ar.check? x >>= f).isSome = true ↔ ar.Fits x ∧ (f x).isSome = true := by
  unfold check?
  split
  · next h => simp [h]
  · next h => simp [h]

theorem div?_eq_some {a b q : ℤ} :
    ar.div? a b = some q ↔ b ≠ 0 ∧ ar.Fits (a.tdiv b) ∧ a.tdiv b = q := by
  unfold div? Fits
  split
  · next h => simp [h]
  · next h => split <;> simp_all

theorem div?_isSome {a b : ℤ} :
    (ar.div? a b).isSome = true ↔ b ≠ 0 ∧ ar.Fits (a.tdiv b) := by
  rw [Option.isSome_iff_exists]
  simp [div?_eq_some]

theorem add_eq_of_fits {a b : ℤ} (h : ar.Fits (a + b)) : ar.add a b = a + b := h

theorem sub_eq_of_fits {a b : ℤ} (h : ar.Fits (a - b)) : ar.sub a b = a - b := h

/-- Additions may be done in one. -/
theorem norm_addAll (q : ℤ) (xs : List ℤ) : ar.norm (ar.addAll q xs) = ar.norm (q + xs.sum) := by
  induction xs generalizing q with
  | nil => simp
  | cons x xs ih => rw [addAll_cons, ih, add, ar.norm_add, List.sum_cons, add_assoc]

theorem exact_addAll (q : ℤ) (xs : List ℤ) : exact.addAll q xs = q + xs.sum :=
  @norm_addAll exact q xs

theorem fits_add {a b : ℤ} : ar.Fits (ar.add a b) := norm_norm (a + b)

theorem fits_addAll {q : ℤ} (hq : ar.Fits q) (xs : List ℤ) : ar.Fits (ar.addAll q xs) := by
  induction xs generalizing q with
  | nil => exact hq
  | cons x xs ih => exact ih fits_add

/-- Numbers that are added from 0 make the sum in the end, brought into the word. -/
theorem addAll_zero (h0 : ar.Fits 0) (xs : List ℤ) : ar.addAll 0 xs = ar.norm xs.sum := by
  rw [← fits_addAll h0 xs, norm_addAll, zero_add]

/-- A word of `w + 1` bits holds exactly the values of the type. -/
theorem bmod_eq_self_iff {w : ℕ} {x : ℤ} :
    x.bmod (2 ^ (w + 1)) = x ↔ -2 ^ w ≤ x ∧ x < 2 ^ w := by
  have hpos : 0 < 2 ^ w := by positivity
  have hm : ((2 ^ (w + 1) : ℕ) : ℤ) = 2 * 2 ^ w := by push_cast; ring
  constructor
  · intro h
    have hl := Int.le_bmod (x := x) (m := 2 ^ (w + 1)) (by omega)
    have hu := Int.bmod_lt (x := x) (m := 2 ^ (w + 1)) (by omega)
    rw [h, hm] at hl hu
    omega
  · rintro ⟨hl, hu⟩
    exact Int.bmod_eq_of_le (by omega) (by omega)

/-- A 64-bit word holds exactly the values of the type. -/
theorem fits_i64_iff {x : ℤ} : i64.Fits x ↔ -2 ^ 63 ≤ x ∧ x < 2 ^ 63 :=
  bmod_eq_self_iff (w := 63)

theorem fits_i32_iff {x : ℤ} : i32.Fits x ↔ -2 ^ 31 ≤ x ∧ x < 2 ^ 31 :=
  bmod_eq_self_iff (w := 31)

theorem fits_i16_iff {x : ℤ} : i16.Fits x ↔ -2 ^ 15 ≤ x ∧ x < 2 ^ 15 :=
  bmod_eq_self_iff (w := 15)

end Arith

end Txn
