import Mathlib.Data.List.Infix
import Mathlib.Data.List.Range
import Mathlib.Data.Int.Basic
import Mathlib.Tactic.Linarith

/-!
# Retry schedules

A task that fails is tried again after a delay, until its attempts are used up. A policy judges one
failure by the number of failures before it; what it comes to is seen on the consecutive failures
of a task.

## Main definitions

- `Verdict` — what becomes of a task that has failed
- `Run` — the verdicts on consecutive failures
- `schedule` — the verdicts on all failures of a task, up to the final one
- `Follows` — a policy that counts up to the maximum

## Main results

- `Follows.run_iff` — its runs are the beginnings of the schedule
- `pairwise_delays`, `delays_le` — delays that grow, up to a cap
-/

namespace Retry

variable {δ : Type}

/-- The failure has been counted; the task is tried again after a delay, or never. -/
inductive Verdict (δ : Type) where
  | again (attempts : ℤ) (delay : δ)
  | final (attempts : ℤ)
deriving DecidableEq

def Verdict.delay? : Verdict δ → Option δ
  | again _ delay => some delay
  | final _ => none

/-- The delays after consecutive failures. -/
def delays (vs : List (Verdict δ)) : List δ := vs.filterMap Verdict.delay?

/-- The verdicts on consecutive failures of a task that has failed `attempts` times; the number of
attempts is always the one that the last verdict has counted. -/
inductive Run (judges : ℤ → Verdict δ → Prop) : ℤ → List (Verdict δ) → Prop where
  | nil (attempts : ℤ) : Run judges attempts []
  | final {attempts n : ℤ} (h : judges attempts (.final n)) : Run judges attempts [.final n]
  | again {attempts n : ℤ} {delay : δ} {vs : List (Verdict δ)}
      (h : judges attempts (.again n delay)) (rest : Run judges n vs) :
      Run judges attempts (.again n delay :: vs)

/-- After `attempts` failures `more` are followed by another attempt, and the one after them is
final. -/
def scheduleFrom (delay : ℤ → δ) (attempts : ℤ) (more : ℕ) : List (Verdict δ) :=
  (List.range more).map (fun i : ℕ => .again (attempts + i + 1) (delay (attempts + i + 1))) ++
    [.final (attempts + more + 1)]

/-- The verdicts on the failures of a task with `maxAttempts` attempts. -/
def schedule (maxAttempts : ℕ) (delay : ℤ → δ) : List (Verdict δ) :=
  scheduleFrom delay 0 (maxAttempts - 1)

/-- Every failure but the last one is counted and followed by another attempt, after the delay that
belongs to the count. -/
def Follows (judges : ℤ → Verdict δ → Prop) (maxAttempts : ℕ) (delay : ℤ → δ) : Prop :=
  ∀ attempts : ℤ, 0 ≤ attempts → attempts < maxAttempts → ∀ v, judges attempts v ↔
    v = if attempts + 1 < maxAttempts then .again (attempts + 1) (delay (attempts + 1))
      else .final maxAttempts

variable {judges : ℤ → Verdict δ → Prop} {maxAttempts : ℕ} {delay : ℤ → δ}
  {vs : List (Verdict δ)}

theorem scheduleFrom_zero (delay : ℤ → δ) (attempts : ℤ) :
    scheduleFrom delay attempts 0 = [.final (attempts + 1)] := by
  simp [scheduleFrom]

theorem scheduleFrom_succ (delay : ℤ → δ) (attempts : ℤ) (more : ℕ) :
    scheduleFrom delay attempts (more + 1) =
      .again (attempts + 1) (delay (attempts + 1)) :: scheduleFrom delay (attempts + 1) more := by
  have hshift : ∀ i : ℕ, attempts + (i + 1 : ℕ) = attempts + 1 + i := by
    intro i
    push_cast
    omega
  simp only [scheduleFrom, List.range_succ_eq_map, List.map_cons, List.map_map, List.cons_append,
    Nat.cast_zero, add_zero, Function.comp_def, Nat.succ_eq_add_one, hshift]

/-- What is left to come. -/
theorem Follows.run_iff_from (h : Follows judges maxAttempts delay) {attempts : ℤ} {more : ℕ}
    (hattempts : 0 ≤ attempts) (hmore : attempts + more + 1 = maxAttempts) :
    Run judges attempts vs ↔ vs <+: scheduleFrom delay attempts more := by
  induction more generalizing attempts vs with
  | zero =>
    have hlast : attempts + 1 = maxAttempts := by omega
    have hjudges := h attempts hattempts (by omega)
    rw [if_neg (by omega)] at hjudges
    rw [scheduleFrom_zero, hlast]
    constructor
    · intro hrun
      cases hrun with
      | nil => exact List.nil_prefix
      | final hv => rw [(hjudges _).mp hv]
      | again hv => exact absurd ((hjudges _).mp hv) (by simp)
    · intro hprefix
      obtain rfl | ⟨t, rfl, ht⟩ := List.prefix_cons_iff.mp hprefix
      · exact .nil _
      obtain rfl := List.prefix_nil.mp ht
      exact .final ((hjudges _).mpr rfl)
  | succ more ih =>
    have hjudges := h attempts hattempts (by omega)
    rw [if_pos (by omega)] at hjudges
    have hrest : ∀ vs, Run judges (attempts + 1) vs ↔
        vs <+: scheduleFrom delay (attempts + 1) more :=
      fun vs => ih (by omega) (by omega)
    rw [scheduleFrom_succ]
    constructor
    · intro hrun
      cases hrun with
      | nil => exact List.nil_prefix
      | final hv => exact absurd ((hjudges _).mp hv) (by simp)
      | again hv rest =>
        obtain ⟨rfl, rfl⟩ := Verdict.again.inj ((hjudges _).mp hv)
        exact (List.prefix_cons_inj _).mpr ((hrest _).mp rest)
    · intro hprefix
      obtain rfl | ⟨t, rfl, ht⟩ := List.prefix_cons_iff.mp hprefix
      · exact .nil _
      exact .again ((hjudges _).mpr rfl) ((hrest t).mpr ht)

/-- The verdicts on consecutive failures of a new task are those of the schedule, in order. -/
theorem Follows.run_iff (h : Follows judges maxAttempts delay) (hone : 1 ≤ maxAttempts) :
    Run judges 0 vs ↔ vs <+: schedule maxAttempts delay :=
  h.run_iff_from le_rfl (by omega)

/-! ## Delays -/

theorem delays_schedule (maxAttempts : ℕ) (delay : ℤ → δ) :
    delays (schedule maxAttempts delay) =
      (List.range (maxAttempts - 1)).map fun i : ℕ => delay (i + 1) := by
  simp [delays, schedule, scheduleFrom, List.filterMap_append, List.filterMap_map, Verdict.delay?,
    Function.comp_def]

variable [Preorder δ]

/-- Delays that grow with the number of failures do not get shorter. -/
theorem pairwise_delays (hmono : ∀ m n : ℤ, 1 ≤ m → m ≤ n → delay m ≤ delay n) :
    (delays (schedule maxAttempts delay)).Pairwise (· ≤ ·) := by
  rw [delays_schedule, List.pairwise_map]
  apply List.pairwise_lt_range.imp
  intro i j hij
  exact hmono _ _ (by omega) (by omega)

theorem delays_le {cap : δ} (hcap : ∀ n, delay n ≤ cap) :
    ∀ d ∈ delays (schedule maxAttempts delay), d ≤ cap := by
  intro d hd
  rw [delays_schedule, List.mem_map] at hd
  obtain ⟨i, -, rfl⟩ := hd
  exact hcap _

end Retry
