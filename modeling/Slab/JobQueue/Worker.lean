import Slab.JobQueue.Backend
import Slab.Txn.Machine

/-!
# The workers of the job queue

The queue while it runs: the committed table, the `fetch_due` transactions that are open, and one
task for every job that a fetch has taken. A task executes its job once and then writes what came
of it, whether or not the job is still its own: the orphan sweep may have put the job back into the
queue meanwhile.

## Main definitions

- `Queue` — the table, the open fetches and the tasks
- `Action` — what a producer, a worker, the sweep or the cleaning can do next
- `Queue.act` — the machine of all of them together

## Design notes

Each statement other than those of a fetch is one step. A fetch of Postgres is two: the subquery
locks its rows, and the update commits. A fetch of SQLite is three: `BEGIN IMMEDIATE` takes the
write lock of the database, the statements of `lock_and_mark` follow, and the commit. A statement
whose rows are locked by an open fetch has to wait. A crash is the loss of the tasks of a process
and the rollback of its fetches.
-/

namespace Slab.JobQueue

open Txn

/-! ## Options -/

/-- The durations of `WorkerOptions` that decide about jobs, in nanoseconds. -/
structure WorkerOptions where
  backoffBase : ℕ
  backoffCap : ℕ
  orphanTimeout : ℕ
deriving DecidableEq

/-- The defaults: 1 s, 60 s and 10 minutes. -/
def WorkerOptions.default : WorkerOptions :=
  { backoffBase := 1000000000, backoffCap := 60000000000, orphanTimeout := 600000000000 }

/-- `backoff_delay`: `base * 2^(attempt - 1)`, the exponent at most 30, up to the cap. -/
def backoffDelay (attempt : ℤ) (options : WorkerOptions) : ℕ :=
  -- `(attempt - 1) as u32` is beyond 30 for an attempt that is not positive
  let shift := if 1 ≤ attempt then min (attempt - 1).toNat 30 else 30
  min (min (options.backoffBase * 2 ^ shift) maxDuration) options.backoffCap

/-- `T::RETRIES + 1`, as the column stores it. -/
def maxAttemptsOf (retries : ℕ) : ℤ := asI32 (retries + 1)

/-! ## The operations by backend -/

namespace Backend

def insert (codec : Codec) (jobType payload : String) (runAt maxAttempts : ℤ) (v : Jobs) :
    Backend → Reply Unit
  | pg => Pg.insert codec jobType payload runAt maxAttempts v
  | sqlite => Sqlite.insert jobType payload runAt maxAttempts v

/-- `JobBus::enqueue_after`. -/
def enqueueAfter (codec : Codec) (now : ℤ) (jobType payload : String) (delay retries : ℕ)
    (v : Jobs) (backend : Backend) : Reply Unit :=
  v.orStop (addMillis now (castMillis delay)) fun runAt =>
    backend.insert codec jobType payload runAt (maxAttemptsOf retries) v

def markDone (now : ℤ) (id : ℕ) (v : Jobs) : Backend → Reply Unit
  | pg => Pg.markDone now id v
  | sqlite => Sqlite.markDone now id v

def scheduleRetry (now : ℤ) (id : ℕ) (attempts : ℤ) (delay : ℕ) (lastError : String) (v : Jobs) :
    Backend → Reply Unit
  | pg => Pg.scheduleRetry now id attempts delay lastError v
  | sqlite => Sqlite.scheduleRetry now id attempts delay lastError v

def markFailed (now : ℤ) (id : ℕ) (attempts : ℤ) (lastError : String) (v : Jobs) :
    Backend → Reply Unit
  | pg => Pg.markFailed now id attempts lastError v
  | sqlite => Sqlite.markFailed now id attempts lastError v

/-- `finish_failure`: retry after a backoff, or fail for good after the last attempt. -/
def finishFailure (now : ℤ) (jobMeta : JobMeta) (lastError : String) (options : WorkerOptions)
    (v : Jobs) (backend : Backend) : Reply Unit :=
  let attempts := jobMeta.attempts + 1
  if attempts < jobMeta.maxAttempts then
    backend.scheduleRetry now jobMeta.id attempts (backoffDelay attempts options) lastError v
  else backend.markFailed now jobMeta.id attempts lastError v

/-- How the handler of a job ends; a timeout is the error `job_timeout`. -/
abbrev Outcome := Except String Unit

/-- The end of `run_one_job`. -/
def finish (now : ℤ) (jobMeta : JobMeta) (outcome : Outcome) (options : WorkerOptions) (v : Jobs)
    (backend : Backend) : Reply Unit :=
  match outcome with
  | .ok () => backend.markDone now jobMeta.id v
  | .error e => backend.finishFailure now jobMeta e options v

/-- `older_than` of the orphan sweep: `Utc::now() - orphan_timeout`. -/
def olderThan (now : ℤ) (options : WorkerOptions) : Except Failure ℤ :=
  addMillis now (-castMillis options.orphanTimeout)

def reenqueueOrphaned (olderThan : ℤ) (v : Jobs) : Backend → Reply ℕ
  | pg => Pg.reenqueueOrphaned olderThan v
  | sqlite => Sqlite.reenqueueOrphaned olderThan v

def cutoff (now retentionDays : ℤ) : Backend → Except Failure ℤ
  | pg => Pg.cutoff now retentionDays
  | sqlite => .ok (Sqlite.cutoff now retentionDays)

end Backend

/-! ## The running queue -/

/-- A `fetch_due` that has not committed: the subquery of Postgres has locked its rows, or SQLite
has begun its transaction, or it has executed the statements of that. -/
inductive OpenFetch where
  | locked (call : FetchCall) (rows : List JobRow)
  | begun (call : FetchCall)
  | marked (call : FetchCall) (view : Jobs) (rows : List JobRow)

namespace OpenFetch

def call : OpenFetch → FetchCall
  | locked call _ => call
  | begun call => call
  | marked call _ _ => call

/-- It holds the write lock of the database. -/
def exclusive : OpenFetch → Bool
  | locked _ _ => false
  | begun _ => true
  | marked _ _ _ => true

/-- It holds the lock of the row. -/
def holds (id : ℕ) : OpenFetch → Bool
  | locked _ rows => rows.any fun r => r.id = id
  | begun _ => false
  | marked _ _ _ => false

end OpenFetch

inductive Stage where
  | waiting | running | ended
deriving DecidableEq

/-- A job that fetch number `fetch` took, and the execution of it: whether its handler has been
called, and how far it is. -/
structure Task where
  fetch : ℕ
  jobType : String
  job : FetchJob
  stage : Stage
  started : Bool
deriving DecidableEq

namespace Task

def id (t : Task) : ℕ := t.job.jobMeta.id

/-- The task of a job that has just been fetched. -/
def spawn (fetch : ℕ) (jobType : String) (stage : Stage) (r : JobRow) : Task :=
  { fetch := fetch, jobType := jobType, job := r.fetched, stage := stage, started := false }

/-- `spec.handle`: the handler is called, unless the payload does not decode. -/
def handle (codec : Codec) (t : Task) : Task :=
  { t with stage := .running, started := codec.decodes t.jobType t.job.payload }

def finish (t : Task) : Task := { t with stage := .ended }

@[simp] theorem id_spawn (fetch : ℕ) (jobType : String) (stage : Stage) (r : JobRow) :
    (spawn fetch jobType stage r).id = r.id := rfl

@[simp] theorem id_handle (codec : Codec) (t : Task) : (t.handle codec).id = t.id := rfl

@[simp] theorem id_finish (t : Task) : t.finish.id = t.id := rfl

@[simp] theorem started_finish (t : Task) : t.finish.started = t.started := rfl

end Task

/-- The queue while it runs: the committed table, the open fetches by number (`none` once they
have ended), the tasks in the order in which their jobs were handed out, the ids that have been
enqueued with the `RETRIES` of their jobs, and the rows that the cleaning has deleted. -/
structure Queue where
  jobs : Jobs
  fetches : List (Option OpenFetch)
  tasks : List Task
  enqueued : List (ℕ × ℕ)
  deleted : List JobRow

/-- What can happen next. -/
inductive Action where
  | enqueue (now : ℤ) (jobType payload : String) (delay retries : ℕ)
  | fetch (call : FetchCall) (busy : List ℕ)
  | mark (i : ℕ)
  | commit (i : ℕ)
  | rollback (i : ℕ)
  | handle (k : ℕ)
  | finish (k : ℕ) (now : ℤ) (outcome : Backend.Outcome) (options : WorkerOptions)
  | lose (k : ℕ)
  | sweep (now : ℤ) (options : WorkerOptions)
  | deleteBatch (now retentionDays : ℤ) (pick : List ℕ)

namespace Queue

/-- The empty queue. -/
def init : Queue := { jobs := .empty, fetches := [], tasks := [], enqueued := [], deleted := [] }

/-- The open fetch `i`. -/
def fetch? (q : Queue) (i : ℕ) : Option OpenFetch := (q.fetches[i]?).join

/-- Some open fetch holds the write lock of the database. -/
def exclusive (q : Queue) : Bool := q.fetches.any fun o => o.any OpenFetch.exclusive

/-- Some open fetch holds the lock of the row. -/
def holds (q : Queue) (id : ℕ) : Bool := q.fetches.any fun o => o.any (OpenFetch.holds id)

/-- A statement that writes the rows `ids` need not wait. -/
def admits (q : Queue) (ids : List ℕ) : Bool := !q.exclusive && ids.all fun id => !q.holds id

/-- An operation that fails leaves the queue as it is. -/
def orStop {α : Type} (q : Queue) (x : Except Failure α) (f : α → Option Queue) : Option Queue :=
  match x with
  | .ok a => f a
  | .error _ => some q

@[simp] theorem orStop_ok {α : Type} (q : Queue) (a : α) (f : α → Option Queue) :
    q.orStop (.ok a) f = f a := rfl

@[simp] theorem orStop_error {α : Type} (q : Queue) (e : Failure) (f : α → Option Queue) :
    q.orStop (.error e) f = some q := rfl

def endFetch (q : Queue) (i : ℕ) : Queue := { q with fetches := q.fetches.set i none }

/-- The commit of fetch `i`: its table, and a task for each job, unless the call fails because a
payload does not parse. -/
def handOut (codec : Codec) (i : ℕ) (call : FetchCall) (jobs : Jobs) (rows : List JobRow)
    (q : Queue) : Queue :=
  let stage := if (collect codec rows).isOk then Stage.waiting else Stage.ended
  { q.endFetch i with
    jobs := jobs
    tasks := q.tasks ++ rows.map (Task.spawn i call.jobType stage) }

def enqueue (codec : Codec) (backend : Backend) (now : ℤ) (jobType payload : String)
    (delay retries : ℕ) (q : Queue) : Option Queue :=
  if q.admits [] then
    let reply := backend.enqueueAfter codec now jobType payload delay retries q.jobs
    q.orStop reply.2 fun () => some { q with
      jobs := reply.1
      enqueued := q.enqueued ++ [(q.jobs.nextId, retries)] }
  else none

/-- The first statement of a fetch; `busy` are the rows that statements have locked which are
being executed at that moment. -/
def fetchDue (backend : Backend) (call : FetchCall) (busy : List ℕ) (q : Queue) : Option Queue :=
  match backend with
  | .pg =>
    if call.limit < 0 || !Pg.text call.jobType || !Pg.text call.lockBy then some q
    else
      let rows := Pg.selectDue call (fun id => busy.contains id || q.holds id) q.jobs
      some { q with fetches := q.fetches ++ [some (.locked call rows)] }
  | .sqlite =>
    if q.exclusive then none else some { q with fetches := q.fetches ++ [some (.begun call)] }

def lockAndMark (i : ℕ) (q : Queue) : Option Queue :=
  match q.fetch? i with
  | some (.begun call) =>
    let marked := Sqlite.lockAndMark call q.jobs
    some { q with fetches := q.fetches.set i (some (.marked call marked.1 marked.2)) }
  | _ => none

def commit (codec : Codec) (i : ℕ) (q : Queue) : Option Queue :=
  match q.fetch? i with
  | some (.locked call rows) =>
    let ids := rows.map JobRow.id
    let marked := Pg.markRunning call ids q.jobs
    some (q.handOut codec i call marked (Pg.returning ids marked))
  | some (.marked call view rows) => some (q.handOut codec i call view rows)
  | _ => none

def rollback (i : ℕ) (q : Queue) : Option Queue := (q.fetch? i).map fun _ => q.endFetch i

def handle (codec : Codec) (k : ℕ) (q : Queue) : Option Queue :=
  match q.tasks[k]? with
  | some t =>
    if t.stage = .waiting then some { q with tasks := q.tasks.set k (t.handle codec) } else none
  | none => none

/-- The handler of task `k`, or the decoding before it, ends; the task writes the outcome. -/
def finish (backend : Backend) (k : ℕ) (now : ℤ) (outcome : Backend.Outcome)
    (options : WorkerOptions) (q : Queue) : Option Queue :=
  match q.tasks[k]? with
  | some t =>
    if t.stage = .running ∧ (t.started || !outcome.isOk) ∧ q.admits [t.id] then
      some { q with
        jobs := (backend.finish now t.job.jobMeta outcome options q.jobs).1
        tasks := q.tasks.set k t.finish }
    else none
  | none => none

/-- Task `k` ends without writing anything: its process dies, or its statement fails. -/
def lose (k : ℕ) (q : Queue) : Option Queue :=
  (q.tasks[k]?).map fun t => { q with tasks := q.tasks.set k t.finish }

def sweep (backend : Backend) (now : ℤ) (options : WorkerOptions) (q : Queue) : Option Queue :=
  q.orStop (Backend.olderThan now options) fun t =>
    if q.admits ((q.jobs.rows.filter (JobRow.isOrphaned t)).map JobRow.id) then
      some { q with jobs := (backend.reenqueueOrphaned t q.jobs).1 }
    else none

/-- One `DELETE` of the cleaning; `pick` are the rows that its subquery finds. -/
def deleteBatch (backend : Backend) (now retentionDays : ℤ) (pick : List ℕ) (q : Queue) :
    Option Queue :=
  q.orStop (backend.cutoff now retentionDays) fun t =>
    let expired := (q.jobs.rows.filter (JobRow.isExpired t)).map JobRow.id
    if pick ⊆ expired ∧ pick.Nodup ∧ pick.length = min gcBatch expired.length ∧
        q.admits pick then
      some { q with
        jobs := q.jobs.delete pick
        deleted := q.deleted ++ q.jobs.rows.filter fun r => pick.contains r.id }
    else none

/-- The machine: every action of every party. -/
def act (codec : Codec) (backend : Backend) : Machine Queue Action := fun q a =>
  match a with
  | .enqueue now jobType payload delay retries =>
    q.enqueue codec backend now jobType payload delay retries
  | .fetch call busy => q.fetchDue backend call busy
  | .mark i => q.lockAndMark i
  | .commit i => q.commit codec i
  | .rollback i => q.rollback i
  | .handle k => q.handle codec k
  | .finish k now outcome options => q.finish backend k now outcome options
  | .lose k => q.lose k
  | .sweep now options => q.sweep backend now options
  | .deleteBatch now retentionDays pick => q.deleteBatch backend now retentionDays pick

/-- How often the handler of a job has been called. -/
def starts (q : Queue) (id : ℕ) : ℕ := q.tasks.countP fun t => t.id = id && t.started

end Queue

end Slab.JobQueue
