import Slab.JobQueue.Jobs

/-!
# The two backends of the job queue

Every operation of the queue is written twice, once for Postgres and once for SQLite. An
operation is a function of the table, of the clock reading it takes and of its arguments; the
`fetch_due` of Postgres also of the rows that other transactions have locked, which its
`FOR UPDATE SKIP LOCKED` leaves out.

## Main definitions

- `Pg`, `Sqlite` — the operations of each backend
- `ScanOrder` — the order in which a statement without `ORDER BY` finds rows
- `sweepBatches` — the loop of `delete_finished_older_than`

## Design notes

Postgres rejects texts with a NUL character, job types of more than 128 characters, JSON texts
that are no `JSONB`, and instants outside the range of `TIMESTAMPTZ`; SQLite has none of these
limits.
-/

namespace Slab.JobQueue

open Txn

inductive Backend where
  | pg | sqlite
deriving DecidableEq

/-- `GC_BATCH`. -/
def gcBatch : ℕ := 1000

def millisPerDay : ℤ := 86400000

/-- The arguments of a `fetch_due` and the clock reading it uses. -/
structure FetchCall where
  jobType : String
  limit : ℤ
  lockBy : String
  now : ℤ
deriving DecidableEq

def FetchCall.isDue (call : FetchCall) (r : JobRow) : Bool := r.isDue call.jobType call.now

/-- The rows a fetch may hand out. -/
def Jobs.due (call : FetchCall) (v : Jobs) : List JobRow := v.rows.filter call.isDue

/-- Rows that a statement without `ORDER BY` finds, in the order in which it finds them. -/
structure ScanOrder where
  order : List JobRow → List JobRow
  perm : ∀ rows, (order rows).Perm rows

/-- One `DELETE … LIMIT GC_BATCH`: the rows it picks. -/
def ScanOrder.batch (scan : ScanOrder) (cutoff : ℤ) (v : Jobs) : List JobRow :=
  (scan.order (v.rows.filter (JobRow.isExpired cutoff))).take gcBatch

theorem ScanOrder.mem_batch {scan : ScanOrder} {cutoff : ℤ} {v : Jobs} {r : JobRow}
    (h : r ∈ scan.batch cutoff v) : r ∈ v.rows ∧ r.isExpired cutoff = true :=
  List.mem_filter.mp ((scan.perm _).mem_iff.mp (List.mem_of_mem_take h))

/-- A batch makes the table smaller, unless nothing is left to delete. -/
theorem ScanOrder.length_delete_batch (scan : ScanOrder) (cutoff : ℤ) (v : Jobs)
    (h : scan.batch cutoff v ≠ []) :
    (v.delete ((scan.batch cutoff v).map JobRow.id)).rows.length < v.rows.length := by
  obtain ⟨r, hr⟩ := List.exists_mem_of_ne_nil _ h
  have hmem := (mem_batch hr).1
  refine List.length_filter_lt_length_iff_exists.mpr ⟨r, hmem, ?_⟩
  simpa using ⟨r, hr, rfl⟩

/-- The loop of `delete_finished_older_than`: batches, up to the first one that is not full. -/
def sweepBatches (scan : ScanOrder) (cutoff : ℤ) (v : Jobs) (deleted : ℕ) : Jobs × ℕ :=
  let batch := scan.batch cutoff v
  let rest := v.delete (batch.map JobRow.id)
  if h : batch.length < gcBatch then (rest, deleted + batch.length)
  else
    have : rest.rows.length < v.rows.length := by
      refine scan.length_delete_batch cutoff v fun hnil => h ?_
      show (scan.batch cutoff v).length < gcBatch
      rw [hnil]
      decide
    sweepBatches scan cutoff rest (deleted + batch.length)
termination_by v.rows.length

/-! ## Instants -/

/-- `DateTime::<Utc>::MIN_UTC` and `MAX_UTC`. -/
def minUtc : ℤ := -8334601228800000

def maxUtc : ℤ := 8210266876799999

/-- `t + chrono::Duration::milliseconds(millis)`, which panics where one of the two is out of its
range. -/
@[irreducible] def addMillis (t millis : ℤ) : Except Failure ℤ :=
  if millis = -2 ^ 63 ∨ t + millis < minUtc ∨ maxUtc < t + millis then .error .panicked
  else .ok (t + millis)

/-- `delay.as_millis() as i64`. -/
@[irreducible] def castMillis (delay : ℕ) : ℤ := Arith.i64.norm (asMillis delay)

/-! ## Postgres -/

namespace Pg

/-- The first instant of `TIMESTAMPTZ`, in the year 4713 BC. -/
def minTimestamp : ℤ := -210866803200000

/-- The end of `TIMESTAMPTZ`, in the year 294277. -/
def endTimestamp : ℤ := 9224318016000000

/-- A `DateTime<Utc>` as a `TIMESTAMPTZ`. -/
def timestamp (t : ℤ) : Except Failure ℤ :=
  if minTimestamp ≤ t ∧ t ≤ maxUtc then .ok t else .error .database

/-- A text that Postgres stores: it has no NUL character. -/
def text (s : String) : Bool := s.toList.all fun c => c != Char.ofNat 0

/-- `VARCHAR(128)`. -/
def varchar128 (s : String) : Bool := text s && decide (s.length ≤ 128)

def insert (codec : Codec) (jobType payload : String) (runAt maxAttempts : ℤ) (v : Jobs) :
    Reply Unit :=
  v.orStop (timestamp runAt) fun t =>
    if varchar128 jobType && codec.jsonb payload then
      (v.insert jobType payload t maxAttempts, .ok ())
    else (v, .error .database)

/-- `ORDER BY run_at, id`. -/
def fetchOrder (x y : JobRow) : Prop := x.runAt < y.runAt ∨ x.runAt = y.runAt ∧ x.id ≤ y.id

instance : DecidableRel fetchOrder := fun _ _ => inferInstanceAs (Decidable (_ ∨ _ ∧ _))

/-- The subquery of `fetch_due`: the first rows that are due and that no other transaction has
locked. -/
def selectDue (call : FetchCall) (busy : ℕ → Bool) (v : Jobs) : List JobRow :=
  (((v.due call).filter fun r => !busy r.id).insertionSort fetchOrder).take call.limit.toNat

/-- The update around it: the rows of the subquery are running. -/
def markRunning (call : FetchCall) (ids : List ℕ) (v : Jobs) : Jobs :=
  v.update (fun r => ids.contains r.id) (JobRow.markRunning call.lockBy call.now)
    (JobRow.markRunning_id call.lockBy call.now)

/-- `RETURNING`: the updated rows, as the scan of the table meets them. -/
def returning (ids : List ℕ) (v : Jobs) : List JobRow := v.rows.filter fun r => ids.contains r.id

def fetchDue (codec : Codec) (call : FetchCall) (v : Jobs) : Reply (List FetchJob) :=
  if call.limit < 0 || !text call.jobType || !text call.lockBy then (v, .error .database)
  else
    let ids := (selectDue call (fun _ => false) v).map JobRow.id
    let marked := markRunning call ids v
    (marked, collect codec (returning ids marked))

def markDone (now : ℤ) (id : ℕ) (v : Jobs) : Reply Unit :=
  (v.update (fun r => r.id = id) (JobRow.markDone now) (JobRow.markDone_id now), .ok ())

/-- `Utc::now() + chrono::Duration::milliseconds(delay.as_millis() as i64)`, stored. -/
def retryAt (now : ℤ) (delay : ℕ) : Except Failure ℤ :=
  (addMillis now (castMillis delay)).bind timestamp

def scheduleRetry (now : ℤ) (id : ℕ) (attempts : ℤ) (delay : ℕ) (lastError : String) (v : Jobs) :
    Reply Unit :=
  v.orStop (retryAt now delay) fun runAt =>
    if text lastError then
      (v.update (fun r => r.id = id) (JobRow.scheduleRetry attempts runAt lastError)
        (JobRow.scheduleRetry_id attempts runAt lastError), .ok ())
    else (v, .error .database)

def markFailed (now : ℤ) (id : ℕ) (attempts : ℤ) (lastError : String) (v : Jobs) : Reply Unit :=
  if text lastError then
    (v.update (fun r => r.id = id) (JobRow.markFailed attempts now lastError)
      (JobRow.markFailed_id attempts now lastError), .ok ())
  else (v, .error .database)

def reenqueueOrphaned (olderThan : ℤ) (v : Jobs) : Reply ℕ :=
  v.orStop (timestamp olderThan) fun t =>
    (v.update (JobRow.isOrphaned t) JobRow.reenqueue JobRow.reenqueue_id,
      .ok (v.rows.countP (JobRow.isOrphaned t)))

/-- `now() - make_interval(days => $1::int)`. -/
def cutoff (now retentionDays : ℤ) : Except Failure ℤ :=
  if -2 ^ 31 ≤ retentionDays ∧ retentionDays < 2 ^ 31 then
    if minTimestamp ≤ now - retentionDays * millisPerDay ∧
        now - retentionDays * millisPerDay < endTimestamp then
      .ok (now - retentionDays * millisPerDay)
    else .error .database
  else .error .database

def deleteFinishedOlderThan (scan : ScanOrder) (now retentionDays : ℤ) (v : Jobs) : Reply ℕ :=
  v.orStop (cutoff now retentionDays) fun t =>
    let swept := sweepBatches scan t v 0
    (swept.1, .ok swept.2)

end Pg

/-! ## SQLite -/

namespace Sqlite

def insert (jobType payload : String) (runAt maxAttempts : ℤ) (v : Jobs) : Reply Unit :=
  (v.insert jobType payload runAt maxAttempts, .ok ())

/-- The `SELECT` of `lock_and_mark`: `ORDER BY id LIMIT ?`, without limit where it is negative. -/
def selectDue (call : FetchCall) (v : Jobs) : List JobRow :=
  let rows := (v.due call).insertionSort fun x y => x.id ≤ y.id
  if call.limit < 0 then rows else rows.take call.limit.toNat

/-- One `UPDATE … WHERE id = ? AND status = 'Pending'`. -/
def markRunning (call : FetchCall) (id : ℕ) (v : Jobs) : Jobs :=
  v.update (fun r => decide (r.id = id) && decide (r.status = .pending))
    (JobRow.markRunning call.lockBy call.now) (JobRow.markRunning_id call.lockBy call.now)

/-- Between `BEGIN IMMEDIATE` and `COMMIT`: the rows due, and one update for each of them. -/
def lockAndMark (call : FetchCall) (v : Jobs) : Jobs × List JobRow :=
  let rows := selectDue call v
  (rows.foldl (fun v r => markRunning call r.id v) v, rows)

def fetchDue (codec : Codec) (call : FetchCall) (v : Jobs) : Reply (List FetchJob) :=
  let fetched := lockAndMark call v
  (fetched.1, collect codec fetched.2)

def markDone (now : ℤ) (id : ℕ) (v : Jobs) : Reply Unit :=
  (v.update (fun r => r.id = id) (JobRow.markDone now) (JobRow.markDone_id now), .ok ())

/-- `now_millis() + i64::try_from(delay.as_millis())`. -/
def retryAt (now : ℤ) (delay : ℕ) : Except Failure ℤ :=
  if (2 : ℤ) ^ 63 ≤ asMillis delay then .error .backoffOverflow
  else .ok (Arith.i64.add now (asMillis delay))

def scheduleRetry (now : ℤ) (id : ℕ) (attempts : ℤ) (delay : ℕ) (lastError : String) (v : Jobs) :
    Reply Unit :=
  v.orStop (retryAt now delay) fun runAt =>
    (v.update (fun r => r.id = id) (JobRow.scheduleRetry attempts runAt lastError)
      (JobRow.scheduleRetry_id attempts runAt lastError), .ok ())

def markFailed (now : ℤ) (id : ℕ) (attempts : ℤ) (lastError : String) (v : Jobs) : Reply Unit :=
  (v.update (fun r => r.id = id) (JobRow.markFailed attempts now lastError)
    (JobRow.markFailed_id attempts now lastError), .ok ())

def reenqueueOrphaned (olderThan : ℤ) (v : Jobs) : Reply ℕ :=
  (v.update (JobRow.isOrphaned olderThan) JobRow.reenqueue JobRow.reenqueue_id,
    .ok (v.rows.countP (JobRow.isOrphaned olderThan)))

/-- `now_millis() - retention_days * 86_400_000`. -/
def cutoff (now retentionDays : ℤ) : ℤ :=
  Arith.i64.sub now (Arith.i64.mul retentionDays millisPerDay)

def deleteFinishedOlderThan (scan : ScanOrder) (now retentionDays : ℤ) (v : Jobs) : Reply ℕ :=
  let swept := sweepBatches scan (cutoff now retentionDays) v 0
  (swept.1, .ok swept.2)

end Sqlite

end Slab.JobQueue
