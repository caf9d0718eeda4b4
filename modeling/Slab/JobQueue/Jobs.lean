import Slab.Txn.Arith
import Slab.Txn.Table

/-!
# The table of jobs

The table `worker_jobs`, which both backends of the job queue keep, and the changes of it that
their statements make.

## Main definitions

- `JobRow`, `Jobs` — rows, and the table with the sequence of its ids
- `Jobs.insert`, `Jobs.update`, `Jobs.delete` — what statements do to it
- `FetchJob`, `JobMeta` — a job as a worker receives it
- `Codec` — what the JSON library and the column types accept
-/

namespace Slab.JobQueue

open Txn

inductive JobStatus where
  | pending | running | done | failed
deriving DecidableEq

/-- `status IN ('Done', 'Failed')`. -/
def JobStatus.finished : JobStatus → Bool
  | pending => false
  | running => false
  | done => true
  | failed => true

/-- A row of `worker_jobs`. Times are milliseconds since the epoch; `payload` is the text of a
JSON document. -/
structure JobRow where
  id : ℕ
  jobType : String
  payload : String
  status : JobStatus
  attempts : ℤ
  maxAttempts : ℤ
  runAt : ℤ
  lastError : Option String
  lockBy : Option String
  lockAt : Option ℤ
  doneAt : Option ℤ
deriving DecidableEq

namespace JobRow

/-- The row that `insert` makes: the column defaults, and the values given. -/
def queued (id : ℕ) (jobType payload : String) (runAt maxAttempts : ℤ) : JobRow :=
  { id := id
    jobType := jobType
    payload := payload
    status := .pending
    attempts := 0
    maxAttempts := maxAttempts
    runAt := runAt
    lastError := none
    lockBy := none
    lockAt := none
    doneAt := none }

/-- `job_type = $1 AND status = 'Pending' AND run_at <= $2`. -/
def isDue (jobType : String) (now : ℤ) (r : JobRow) : Bool :=
  decide (r.jobType = jobType) && decide (r.status = .pending) && decide (r.runAt ≤ now)

/-- `status = 'Running' AND lock_at < $1`. -/
def isOrphaned (olderThan : ℤ) (r : JobRow) : Bool :=
  decide (r.status = .running) && r.lockAt.any fun t => decide (t < olderThan)

/-- `status IN ('Done', 'Failed') AND done_at < $1`. -/
def isExpired (cutoff : ℤ) (r : JobRow) : Bool :=
  r.status.finished && r.doneAt.any fun t => decide (t < cutoff)

/-- `SET status = 'Running', lock_by = $1, lock_at = $2`. -/
def markRunning (lockBy : String) (now : ℤ) (r : JobRow) : JobRow :=
  { r with status := .running, lockBy := some lockBy, lockAt := some now }

/-- `SET status = 'Done', done_at = $1`. -/
def markDone (now : ℤ) (r : JobRow) : JobRow := { r with status := .done, doneAt := some now }

/-- `SET status = 'Pending', attempts = $1, run_at = $2, last_error = $3`, lock columns `NULL`. -/
def scheduleRetry (attempts runAt : ℤ) (lastError : String) (r : JobRow) : JobRow :=
  { r with
    status := .pending
    attempts := attempts
    runAt := runAt
    lastError := some lastError
    lockBy := none
    lockAt := none }

/-- `SET status = 'Failed', attempts = $1, done_at = $2, last_error = $3`, lock columns `NULL`. -/
def markFailed (attempts now : ℤ) (lastError : String) (r : JobRow) : JobRow :=
  { r with
    status := .failed
    attempts := attempts
    doneAt := some now
    lastError := some lastError
    lockBy := none
    lockAt := none }

/-- `SET status = 'Pending', last_error = 'orphan_abandoned'`, lock columns `NULL`. -/
def reenqueue (r : JobRow) : JobRow :=
  { r with
    status := .pending
    lockBy := none
    lockAt := none
    lastError := some "orphan_abandoned" }

theorem isDue_iff {jobType : String} {now : ℤ} {r : JobRow} :
    r.isDue jobType now = true ↔
      r.jobType = jobType ∧ r.status = .pending ∧ r.runAt ≤ now := by
  simp [isDue, and_assoc]

theorem running_of_isOrphaned {olderThan : ℤ} {r : JobRow} (h : r.isOrphaned olderThan = true) :
    r.status = .running := by
  simp only [isOrphaned, Bool.and_eq_true, decide_eq_true_eq] at h
  exact h.1

theorem finished_of_isExpired {cutoff : ℤ} {r : JobRow} (h : r.isExpired cutoff = true) :
    r.status.finished = true := by
  simp only [isExpired, Bool.and_eq_true] at h
  exact h.1

theorem markRunning_id (lockBy : String) (now : ℤ) (r : JobRow) :
    (r.markRunning lockBy now).id = r.id := rfl

theorem markDone_id (now : ℤ) (r : JobRow) : (r.markDone now).id = r.id := rfl

theorem scheduleRetry_id (attempts runAt : ℤ) (lastError : String) (r : JobRow) :
    (r.scheduleRetry attempts runAt lastError).id = r.id := rfl

theorem markFailed_id (attempts now : ℤ) (lastError : String) (r : JobRow) :
    (r.markFailed attempts now lastError).id = r.id := rfl

theorem reenqueue_id (r : JobRow) : r.reenqueue.id = r.id := rfl

end JobRow

/-- The table, and the next value of its sequence: no row has an id that is still to come. -/
structure Jobs where
  table : Table JobRow.id
  nextId : ℕ
  fresh : ∀ r ∈ table.rows, r.id < nextId

namespace Jobs

def empty : Jobs := ⟨.empty, 1, fun _ h => absurd h List.not_mem_nil⟩

def rows (v : Jobs) : List JobRow := v.table.rows

def get? (v : Jobs) (id : ℕ) : Option JobRow := v.table.get? id

theorem id_lt_of_get? {v : Jobs} {id : ℕ} {r : JobRow} (h : v.get? id = some r) :
    id < v.nextId := by
  obtain ⟨hr, rfl⟩ := Table.get?_eq_some.mp h
  exact v.fresh r hr

theorem get?_nextId (v : Jobs) : v.get? v.nextId = none := by
  cases h : v.get? v.nextId with
  | none => rfl
  | some r => exact absurd (id_lt_of_get? h) (Nat.lt_irrefl _)

/-- `INSERT INTO worker_jobs`, with the next id of the sequence. -/
def insert (jobType payload : String) (runAt maxAttempts : ℤ) (v : Jobs) : Jobs where
  table := v.table.insert (.queued v.nextId jobType payload runAt maxAttempts)
  nextId := v.nextId + 1
  fresh r hr := by
    rcases Table.mem_rows_insert hr with hold | rfl
    · exact Nat.lt_succ_of_lt (v.fresh r hold)
    · exact Nat.lt_succ_self _

/-- `UPDATE worker_jobs SET … WHERE p`. -/
def update (p : JobRow → Bool) (f : JobRow → JobRow) (hf : ∀ r, (f r).id = r.id) (v : Jobs) :
    Jobs where
  table := v.table.updateWhere p f hf
  nextId := v.nextId
  fresh r hr := by
    obtain ⟨s, hs, rfl⟩ := List.mem_map.mp hr
    have hid : (if p s then f s else s).id = s.id := by
      split
      · exact hf s
      · rfl
    rw [hid]
    exact v.fresh s hs

/-- `DELETE FROM worker_jobs WHERE id IN (ids)`. -/
def delete (ids : List ℕ) (v : Jobs) : Jobs where
  table := v.table.restrict fun r => !ids.contains r.id
  nextId := v.nextId
  fresh r hr := v.fresh r (List.mem_filter.mp hr).1

theorem ext {v w : Jobs} (htable : v.table = w.table) (hnext : v.nextId = w.nextId) : v = w := by
  cases v
  cases w
  cases htable
  cases hnext
  rfl

section Lookup

variable {v : Jobs} {id : ℕ}

@[simp] theorem nextId_insert {jobType payload : String} {runAt maxAttempts : ℤ} :
    (v.insert jobType payload runAt maxAttempts).nextId = v.nextId + 1 := rfl

theorem get?_insert {jobType payload : String} {runAt maxAttempts : ℤ} :
    (v.insert jobType payload runAt maxAttempts).get? id =
      if id = v.nextId then some (JobRow.queued v.nextId jobType payload runAt maxAttempts)
      else v.get? id := by
  by_cases h : id = v.nextId
  · subst h
    rw [if_pos rfl]
    have hnone : v.table.get? (JobRow.queued v.nextId jobType payload runAt maxAttempts).id =
        none := get?_nextId v
    exact Table.get?_insert_self hnone
  · rw [if_neg h]
    exact Table.get?_insert_of_ne (Ne.symm h)

variable {p : JobRow → Bool} {f : JobRow → JobRow} {hf : ∀ r, (f r).id = r.id}

@[simp] theorem nextId_update : (v.update p f hf).nextId = v.nextId := rfl

theorem get?_update :
    (v.update p f hf).get? id = (v.get? id).map fun r => if p r then f r else r := by
  show (v.table.updateWhere p f hf).get? id = _
  exact Table.get?_updateWhere id

@[simp] theorem nextId_delete {ids : List ℕ} : (v.delete ids).nextId = v.nextId := rfl

theorem get?_delete {ids : List ℕ} :
    (v.delete ids).get? id = if id ∈ ids then none else v.get? id := by
  have hfilter : (v.delete ids).get? id = (v.get? id).filter fun r => !ids.contains r.id :=
    Table.get?_restrict_eq_filter _ id v.table
  rw [hfilter]
  cases h : v.get? id with
  | none => simp
  | some r =>
    have hid : r.id = id := Table.key_of_get? h
    by_cases hmem : id ∈ ids
    · simp [hid, hmem]
    · simp [hid, hmem]

end Lookup

end Jobs

/-! ## Jobs as workers receive them -/

/-- The fields that the transitions of a job need. -/
structure JobMeta where
  id : ℕ
  attempts : ℤ
  maxAttempts : ℤ
deriving DecidableEq

structure FetchJob where
  payload : String
  jobMeta : JobMeta
deriving DecidableEq

def JobRow.jobMeta (r : JobRow) : JobMeta :=
  { id := r.id, attempts := r.attempts, maxAttempts := r.maxAttempts }

def JobRow.fetched (r : JobRow) : FetchJob := { payload := r.payload, jobMeta := r.jobMeta }

/-- What the libraries under the queue accept of a JSON text: `parses` for `serde_json` reading
it back, `jsonb` for the column type of Postgres, `decodes` for the deserialization that a job
type defines. -/
structure Codec where
  parses : String → Bool
  jsonb : String → Bool
  decodes : String → String → Bool

/-- Why an operation did not succeed: an error of the database or of the JSON library, the error
`backoff_overflow`, or a panic. -/
inductive Failure where
  | database | json | backoffOverflow | panicked
deriving DecidableEq

/-- The table after an operation, and what the caller gets. -/
abbrev Reply (α : Type) := Jobs × Except Failure α

/-- `?`: an operation stops at an error and leaves the table as it is. -/
def Jobs.orStop {α β : Type} (v : Jobs) (x : Except Failure α) (f : α → Reply β) : Reply β :=
  match x with
  | .ok a => f a
  | .error e => (v, .error e)

@[simp] theorem Jobs.orStop_ok {α β : Type} (v : Jobs) (a : α) (f : α → Reply β) :
    v.orStop (.ok a) f = f a := rfl

@[simp] theorem Jobs.orStop_error {α β : Type} (v : Jobs) (e : Failure) (f : α → Reply β) :
    v.orStop (.error e) f = (v, .error e) := rfl

/-- The rows of a fetch as jobs: all of them, or an error if one payload does not parse. -/
def collect (codec : Codec) (rows : List JobRow) : Except Failure (List FetchJob) :=
  if rows.all fun r => codec.parses r.payload then .ok (rows.map JobRow.fetched)
  else .error .json

/-! ## Durations -/

/-- `Duration::MAX`, in nanoseconds. -/
def maxDuration : ℕ := (2 ^ 64 - 1) * 10 ^ 9 + 999999999

/-- `Duration::as_millis` of a duration in nanoseconds. -/
def asMillis (d : ℕ) : ℕ := d / 10 ^ 6

/-- `as i32`. -/
def asI32 (x : ℤ) : ℤ := x.bmod (2 ^ 32)

end Slab.JobQueue
