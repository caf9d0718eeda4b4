import Slab.JobQueue.Equivalence
import Slab.JobQueue.Worker

/-!
# What one step of the queue does

A step that commits a fetch marks, in both backends, the rows that the fetch holds, which are then
as they were when the fetch selected them. `Queue.Fetching` is the invariant behind it: an open
fetch of Postgres has locked its rows, and an open fetch of SQLite has the database for itself.

## Main definitions

- `Queue.Fetching` — the invariant of the open fetches
- `Effect` — what a step does to the table and to the tasks, one constructor for each kind
- `Completes` — the update with which a task ends

## Main results

- `fetching_act`, `effect_act` — every step keeps the invariant and has one of the effects
-/

namespace Slab.JobQueue

open Txn

/-! ## Slots -/

section Slots

variable {l : List (Option OpenFetch)} {i j : ℕ} {o p : OpenFetch}

theorem slot_set_none : ((l.set i none)[j]?).join = some p ↔ j ≠ i ∧ (l[j]?).join = some p := by
  by_cases hj : j = i
  · subst hj
    by_cases hlt : j < l.length
    · simp [List.getElem?_set_self hlt]
    · have hnone : (l.set j none)[j]? = none :=
        List.getElem?_eq_none (by rw [List.length_set]; omega)
      simp [hnone]
  · simp [List.getElem?_set_ne (Ne.symm hj), hj]

theorem slot_set_some (h : (l[i]?).join = some o) :
    ((l.set i (some p))[j]?).join = if j = i then some p else (l[j]?).join := by
  have hlt : i < l.length := by
    by_contra hn
    simp [List.getElem?_eq_none (Nat.le_of_not_lt hn)] at h
  by_cases hj : j = i
  · subst hj
    simp [List.getElem?_set_self hlt]
  · simp [List.getElem?_set_ne (Ne.symm hj), hj]

theorem slot_append : ((l ++ [some o])[j]?).join = some p ↔
    (l[j]?).join = some p ∨ j = l.length ∧ p = o := by
  rcases lt_trichotomy j l.length with hj | hj | hj
  · simp [List.getElem?_append_left hj, Nat.ne_of_lt hj]
  · subst hj
    simp [eq_comm]
  · have hnone : (l ++ [some o])[j]? = none := by
      refine List.getElem?_eq_none ?_
      rw [List.length_append, List.length_singleton]
      omega
    have hold : l[j]? = none := List.getElem?_eq_none (Nat.le_of_lt hj)
    simp [hnone, hold, Nat.ne_of_gt hj]

end Slots

/-! ## The open fetches -/

/-- An open fetch of Postgres has locked rows that are due and as it selected them, and no two
have locked the same row; an open fetch of SQLite is alone, and has marked what it selected. -/
structure Queue.Fetching (backend : Backend) (q : Queue) : Prop where
  kind : ∀ i o, q.fetch? i = some o → o.exclusive = decide (backend = .sqlite)
  alone : ∀ i j o p, q.fetch? i = some o → q.fetch? j = some p → o.exclusive = true → j = i
  locked : ∀ i call rows, q.fetch? i = some (.locked call rows) → (rows.map JobRow.id).Nodup ∧
    ∀ r ∈ rows, q.jobs.get? r.id = some r ∧ call.isDue r = true
  apart : ∀ i j call call' rows rows', q.fetch? i = some (.locked call rows) →
    q.fetch? j = some (.locked call' rows') → j ≠ i → ∀ r ∈ rows, ∀ s ∈ rows', s.id ≠ r.id
  marked : ∀ i call view rows, q.fetch? i = some (.marked call view rows) →
    Sqlite.lockAndMark call q.jobs = (view, rows)

namespace Queue

variable {backend : Backend} {codec : Codec} {q q' : Queue} {i : ℕ} {call : FetchCall}

theorem fetching_init : init.Fetching backend where
  kind i o h := by simp [fetch?, init] at h
  alone i j o p h := by simp [fetch?, init] at h
  locked i call rows h := by simp [fetch?, init] at h
  apart i j call call' rows rows' h := by simp [fetch?, init] at h
  marked i call view rows h := by simp [fetch?, init] at h

theorem holds_of_locked {rows : List JobRow} (h : q.fetch? i = some (.locked call rows))
    {r : JobRow} (hr : r ∈ rows) : q.holds r.id = true := by
  have hmem : some (OpenFetch.locked call rows) ∈ q.fetches := by
    refine List.mem_iff_getElem?.mpr ⟨i, ?_⟩
    simpa [fetch?, Option.join_eq_some_iff] using h
  refine List.any_eq_true.mpr ⟨_, hmem, ?_⟩
  exact List.any_eq_true.mpr ⟨r, hr, decide_eq_true rfl⟩

theorem exclusive_of_fetch? {o : OpenFetch} (h : q.fetch? i = some o)
    (ho : o.exclusive = true) : q.exclusive = true := by
  have hmem : some o ∈ q.fetches := by
    refine List.mem_iff_getElem?.mpr ⟨i, ?_⟩
    simpa [fetch?, Option.join_eq_some_iff] using h
  exact List.any_eq_true.mpr ⟨_, hmem, ho⟩

theorem admits_iff {ids : List ℕ} :
    q.admits ids = true ↔ q.exclusive = false ∧ ∀ id ∈ ids, q.holds id = false := by
  simp [admits]

/-- A statement keeps the invariant when it may execute and leaves locked rows alone. -/
theorem Fetching.of_statement (h : q.Fetching backend) (hfetches : q'.fetches = q.fetches)
    (hexclusive : q.exclusive = false)
    (hjobs : ∀ id r, q.holds id = true → q.jobs.get? id = some r → r.status = .pending →
      q'.jobs.get? id = some r) : q'.Fetching backend := by
  have hfetch : ∀ i, q'.fetch? i = q.fetch? i := fun i => by rw [fetch?, hfetches, fetch?]
  refine ⟨fun i o => hfetch i ▸ h.kind i o, fun i j o p => hfetch i ▸ hfetch j ▸ h.alone i j o p,
    fun i call rows hi => ?_, fun i j c c' rs rs' => hfetch i ▸ hfetch j ▸ h.apart i j c c' rs rs',
    fun i call view rows hi => ?_⟩
  · rw [hfetch] at hi
    obtain ⟨hnodup, hrows⟩ := h.locked i call rows hi
    refine ⟨hnodup, fun r hr => ?_⟩
    obtain ⟨hget, hdue⟩ := hrows r hr
    exact ⟨hjobs r.id r (holds_of_locked hi hr) hget (JobRow.isDue_iff.mp hdue).2.1, hdue⟩
  · rw [hfetch] at hi
    have := exclusive_of_fetch? hi rfl
    rw [hexclusive] at this
    cases this

theorem Fetching.of_same (h : q.Fetching backend) (hfetches : q'.fetches = q.fetches)
    (hjobs : q'.jobs = q.jobs) : q'.Fetching backend := by
  have hfetch : ∀ i, q'.fetch? i = q.fetch? i := fun i => by rw [fetch?, hfetches, fetch?]
  exact ⟨fun i o => hfetch i ▸ h.kind i o, fun i j o p => hfetch i ▸ hfetch j ▸ h.alone i j o p,
    fun i call rows => hfetch i ▸ hjobs ▸ h.locked i call rows,
    fun i j c c' rs rs' => hfetch i ▸ hfetch j ▸ h.apart i j c c' rs rs',
    fun i call view rows => hfetch i ▸ hjobs ▸ h.marked i call view rows⟩

theorem fetch?_endFetch {j : ℕ} {o : OpenFetch} :
    (q.endFetch i).fetch? j = some o ↔ j ≠ i ∧ q.fetch? j = some o := slot_set_none

theorem Fetching.endFetch (h : q.Fetching backend) : (q.endFetch i).Fetching backend where
  kind j o hj := h.kind j o (fetch?_endFetch.mp hj).2
  alone j k o p hj hk := h.alone j k o p (fetch?_endFetch.mp hj).2 (fetch?_endFetch.mp hk).2
  locked j call rows hj := h.locked j call rows (fetch?_endFetch.mp hj).2
  apart j k c c' rs rs' hj hk :=
    h.apart j k c c' rs rs' (fetch?_endFetch.mp hj).2 (fetch?_endFetch.mp hk).2
  marked j call view rows hj := h.marked j call view rows (fetch?_endFetch.mp hj).2

end Queue

/-! ## What a fetch selects -/

section Select

variable {call : FetchCall} {busy : ℕ → Bool} {v : Jobs}

theorem Pg.mem_selectDue {r : JobRow} (h : r ∈ Pg.selectDue call busy v) :
    v.get? r.id = some r ∧ call.isDue r = true ∧ busy r.id = false := by
  have hsorted := (List.mem_insertionSort _).mp (List.mem_of_mem_take h)
  obtain ⟨hdue, hfree⟩ := List.mem_filter.mp hsorted
  obtain ⟨hr, hisDue⟩ := List.mem_filter.mp hdue
  exact ⟨Table.get?_of_mem hr, hisDue, by simpa using hfree⟩

theorem Pg.nodup_selectDue_ids : ((Pg.selectDue call busy v).map JobRow.id).Nodup := by
  have hrows : ((v.due call).filter fun r => !busy r.id).Sublist v.rows :=
    List.filter_sublist.trans List.filter_sublist
  have hids := v.table.nodup.sublist (hrows.map JobRow.id)
  have hsorted := ((List.perm_insertionSort Pg.fetchOrder _).map JobRow.id).nodup_iff.mpr hids
  exact hsorted.sublist ((List.take_sublist _ _).map JobRow.id)

theorem Sqlite.nodup_selectDue_ids : ((Sqlite.selectDue call v).map JobRow.id).Nodup := by
  have hids := v.table.nodup.sublist
    ((List.filter_sublist (p := call.isDue) (l := v.rows)).map JobRow.id)
  have hsorted := ((List.perm_insertionSort (fun x y : JobRow => x.id ≤ y.id) _).map
    JobRow.id).nodup_iff.mpr hids
  rw [Sqlite.selectDue]
  split
  · exact hsorted
  · exact hsorted.sublist ((List.take_sublist _ _).map JobRow.id)

/-- Among rows with distinct ids. -/
theorem filter_id_eq {rows : List JobRow} {r : JobRow} (hnodup : (rows.map JobRow.id).Nodup)
    (hr : r ∈ rows) : (rows.filter fun s => s.id = r.id) = [r] := by
  refine List.perm_singleton.mp ?_
  refine (List.perm_ext_iff_of_nodup (hnodup.of_map.filter _) (List.nodup_singleton r)).mpr ?_
  intro s
  rw [List.mem_filter, List.mem_singleton]
  constructor
  · rintro ⟨hs, hid⟩
    exact List.inj_on_of_nodup_map hnodup hs hr (by simpa using hid)
  · rintro rfl
    exact ⟨hr, decide_eq_true rfl⟩

/-- Among rows with distinct ids, the tasks of one job are the task of its row. -/
theorem filter_spawn {i : ℕ} {jobType : String} {stage : Stage} {rows : List JobRow} {r : JobRow}
    (hnodup : (rows.map JobRow.id).Nodup) (hr : r ∈ rows) :
    ((rows.map (Task.spawn i jobType stage)).filter fun t => t.id = r.id) =
      [Task.spawn i jobType stage r] := by
  rw [List.filter_map]
  show (rows.filter fun s => s.id = r.id).map _ = _
  rw [filter_id_eq hnodup hr]
  rfl

/-- The tasks of other jobs are none of its tasks. -/
theorem filter_spawn_of_not_mem {i id : ℕ} {jobType : String} {stage : Stage}
    {rows : List JobRow} (h : id ∉ rows.map JobRow.id) :
    ((rows.map (Task.spawn i jobType stage)).filter fun t => t.id = id) = [] := by
  refine List.filter_eq_nil_iff.mpr fun t ht hid => ?_
  obtain ⟨r, hr, rfl⟩ := List.mem_map.mp ht
  have hrid : r.id = id := of_decide_eq_true hid
  exact h (hrid ▸ List.mem_map_of_mem hr)

/-- The rows that a fetch takes are marked, all of them and no others. -/
theorem get?_markRunning {ids : List ℕ} (id : ℕ) :
    (Pg.markRunning call ids v).get? id =
      (v.get? id).map fun r => if id ∈ ids then r.markRunning call.lockBy call.now else r := by
  rw [Pg.markRunning, Jobs.get?_update]
  cases h : v.get? id with
  | none => rfl
  | some r =>
    have hid : r.id = id := Table.key_of_get? h
    simp [hid]

end Select

/-! ## The effects -/

/-- The updates with which a task ends. -/
inductive Completes (jobMeta : JobMeta) : Backend.Outcome → (JobRow → JobRow) → Prop where
  | done (now : ℤ) : Completes jobMeta (.ok ()) (JobRow.markDone now)
  | retry (runAt : ℤ) (e : String) (h : jobMeta.attempts + 1 < jobMeta.maxAttempts) :
      Completes jobMeta (.error e) (JobRow.scheduleRetry (jobMeta.attempts + 1) runAt e)
  | failed (now : ℤ) (e : String) (h : jobMeta.maxAttempts ≤ jobMeta.attempts + 1) :
      Completes jobMeta (.error e) (JobRow.markFailed (jobMeta.attempts + 1) now e)

/-- A task writes one of these updates, or its statement fails and it writes nothing. -/
def Writes (jobMeta : JobMeta) (outcome : Backend.Outcome) (v w : Jobs) : Prop :=
  w = v ∨ ∃ f hf, Completes jobMeta outcome f ∧ w = v.update (fun r => r.id = jobMeta.id) f hf

theorem writes_scheduleRetry {backend : Backend} {now : ℤ} {jobMeta : JobMeta} {delay : ℕ}
    {e : String} {v : Jobs} (h : jobMeta.attempts + 1 < jobMeta.maxAttempts) :
    Writes jobMeta (.error e) v
      (backend.scheduleRetry now jobMeta.id (jobMeta.attempts + 1) delay e v).1 := by
  cases backend with
  | pg =>
    rw [Backend.scheduleRetry, Pg.scheduleRetry]
    generalize Pg.retryAt now delay = runAt
    cases runAt with
    | error e => exact .inl rfl
    | ok t =>
      rw [Jobs.orStop_ok]
      split
      · exact .inr ⟨_, _, .retry t e h, rfl⟩
      · exact .inl rfl
  | sqlite =>
    rw [Backend.scheduleRetry, Sqlite.scheduleRetry]
    generalize Sqlite.retryAt now delay = runAt
    cases runAt with
    | error e => exact .inl rfl
    | ok t => exact .inr ⟨_, _, .retry t e h, rfl⟩

theorem writes_markFailed {backend : Backend} {now : ℤ} {jobMeta : JobMeta} {e : String}
    {v : Jobs} (h : jobMeta.maxAttempts ≤ jobMeta.attempts + 1) :
    Writes jobMeta (.error e) v
      (backend.markFailed now jobMeta.id (jobMeta.attempts + 1) e v).1 := by
  cases backend with
  | pg =>
    rw [Backend.markFailed, Pg.markFailed]
    split
    · exact .inr ⟨_, _, .failed now e h, rfl⟩
    · exact .inl rfl
  | sqlite => exact .inr ⟨_, _, .failed now e h, rfl⟩

/-- What a task writes at its end. -/
theorem finish_writes (backend : Backend) (now : ℤ) (jobMeta : JobMeta)
    (outcome : Backend.Outcome) (options : WorkerOptions) (v : Jobs) :
    Writes jobMeta outcome v (backend.finish now jobMeta outcome options v).1 := by
  cases outcome with
  | ok u => exact .inr ⟨_, JobRow.markDone_id now, .done now, by cases backend <;> rfl⟩
  | error e =>
    rw [Backend.finish, Backend.finishFailure]
    by_cases h : jobMeta.attempts + 1 < jobMeta.maxAttempts
    · rw [if_pos h]
      exact writes_scheduleRetry h
    · rw [if_neg h]
      exact writes_markFailed (not_lt.mp h)

/-- An action that opens a fetch, goes on with it or rolls it back. -/
def Action.isFetching : Action → Bool
  | .fetch _ _ => true
  | .mark _ => true
  | .rollback _ => true
  | _ => false

/-- What a step does to the table and to the tasks. -/
inductive Effect (codec : Codec) (q : Queue) : Action → Queue → Prop where
  /-- A statement fails. -/
  | failed (a : Action) : Effect codec q a q
  /-- A fetch opens, goes on or is rolled back. -/
  | fetching (a : Action) (fetches : List (Option OpenFetch)) (ha : a.isFetching = true) :
      Effect codec q a { q with fetches := fetches }
  | enqueue (now : ℤ) (jobType payload : String) (delay retries : ℕ) (runAt : ℤ)
      (hfree : q.exclusive = false) :
      Effect codec q (.enqueue now jobType payload delay retries) { q with
        jobs := q.jobs.insert jobType payload runAt (maxAttemptsOf retries)
        enqueued := q.enqueued ++ [(q.jobs.nextId, retries)] }
  /-- Fetch `i` commits: the jobs of `rows`, which are due, are running and have a task each. -/
  | claim (i : ℕ) (o : OpenFetch) (rows : List JobRow) (fetches : List (Option OpenFetch))
      (hopen : q.fetch? i = some o) (hnodup : (rows.map JobRow.id).Nodup)
      (hrows : ∀ r ∈ rows, q.jobs.get? r.id = some r ∧ o.call.isDue r = true) :
      Effect codec q (.commit i) { q with
        jobs := Pg.markRunning o.call (rows.map JobRow.id) q.jobs
        fetches := fetches
        tasks := q.tasks ++ rows.map (Task.spawn i o.call.jobType
          (if rows.all fun r => codec.parses r.payload then Stage.waiting else Stage.ended)) }
  | handle (k : ℕ) (t : Task) (ht : q.tasks[k]? = some t) (hstage : t.stage = .waiting) :
      Effect codec q (.handle k) { q with tasks := q.tasks.set k (t.handle codec) }
  | finish (k : ℕ) (now : ℤ) (outcome : Backend.Outcome) (options : WorkerOptions) (t : Task)
      (jobs : Jobs) (ht : q.tasks[k]? = some t) (hstage : t.stage = .running)
      (hfree : q.exclusive = false) (hlocked : q.holds t.id = false)
      (hwrites : Writes t.job.jobMeta outcome q.jobs jobs) :
      Effect codec q (.finish k now outcome options) { q with
        jobs := jobs, tasks := q.tasks.set k t.finish }
  | lose (k : ℕ) (t : Task) (ht : q.tasks[k]? = some t) :
      Effect codec q (.lose k) { q with tasks := q.tasks.set k t.finish }
  | sweep (now : ℤ) (options : WorkerOptions) (t : ℤ)
      (ht : Backend.olderThan now options = .ok t) (hfree : q.exclusive = false) :
      Effect codec q (.sweep now options) { q with
        jobs := q.jobs.update (JobRow.isOrphaned t) JobRow.reenqueue JobRow.reenqueue_id }
  | deleteBatch (now retentionDays : ℤ) (pick : List ℕ) (hfree : q.exclusive = false)
      (hpick : ∀ id ∈ pick, ∃ r, q.jobs.get? id = some r ∧ r.status.finished = true) :
      Effect codec q (.deleteBatch now retentionDays pick) { q with
        jobs := q.jobs.delete pick
        deleted := q.deleted ++ q.jobs.rows.filter fun r => pick.contains r.id }

section Steps

variable {codec : Codec} {backend : Backend} {q q' : Queue}

theorem collect_isOk (rows : List JobRow) :
    (collect codec rows).isOk = rows.all fun r => codec.parses r.payload := by
  rw [collect]
  cases rows.all fun r => codec.parses r.payload <;> rfl

/-- The commit of a fetch of Postgres. -/
theorem effect_commit_locked (h : q.Fetching backend) {i : ℕ} {call : FetchCall}
    {rows : List JobRow} (hi : q.fetch? i = some (.locked call rows)) :
    Effect codec q (.commit i) (q.handOut codec i call
      (Pg.markRunning call (rows.map JobRow.id) q.jobs)
      (Pg.returning (rows.map JobRow.id) (Pg.markRunning call (rows.map JobRow.id) q.jobs))) := by
  obtain ⟨-, hrows⟩ := h.locked i call rows hi
  set ids := rows.map JobRow.id with hids
  -- the same rows, in the order in which they are returned
  set found := q.jobs.rows.filter fun r => ids.contains r.id with hfound
  have hmem : ∀ r ∈ found, q.jobs.get? r.id = some r ∧ call.isDue r = true := by
    intro r hr
    obtain ⟨hr, hid⟩ := List.mem_filter.mp hr
    obtain ⟨s, hs, hsr⟩ := List.mem_map.mp (List.contains_iff_mem.mp hid)
    obtain ⟨hget, hdue⟩ := hrows s hs
    have hr' := Table.get?_of_mem hr
    have hsame : s = r := Option.some_inj.mp (hget.symm.trans (hsr ▸ hr'))
    exact ⟨hr', hsame ▸ hdue⟩
  have hnodup : (found.map JobRow.id).Nodup :=
    q.jobs.table.nodup.sublist (List.filter_sublist.map JobRow.id)
  have hjobs : Pg.markRunning call ids q.jobs =
      Pg.markRunning call (found.map JobRow.id) q.jobs := by
    refine update_congr fun r hr => ?_
    rw [Bool.eq_iff_iff, List.contains_iff_mem, List.contains_iff_mem]
    constructor
    · intro hid
      exact List.mem_map_of_mem (List.mem_filter.mpr ⟨hr, List.contains_iff_mem.mpr hid⟩)
    · intro hid
      obtain ⟨s, hs, hid⟩ := List.mem_map.mp hid
      exact hid ▸ List.contains_iff_mem.mp (List.mem_filter.mp hs).2
  have heffect := @Effect.claim codec q i (.locked call rows) found (q.fetches.set i none)
    hi hnodup hmem
  have htasks : (Pg.returning ids (Pg.markRunning call ids q.jobs)) =
      found.map (JobRow.markRunning call.lockBy call.now) := returning_markRunning ids
  have hall : ((found.map (JobRow.markRunning call.lockBy call.now)).all
      fun r => codec.parses r.payload) = found.all fun r => codec.parses r.payload := by
    rw [List.all_map]
    rfl
  rw [Queue.handOut, htasks, hjobs, collect_isOk, hall, List.map_map]
  exact heffect

/-- The commit of a fetch of SQLite. -/
theorem effect_commit_marked (h : q.Fetching backend) {i : ℕ} {call : FetchCall} {view : Jobs}
    {rows : List JobRow} (hi : q.fetch? i = some (.marked call view rows)) :
    Effect codec q (.commit i) (q.handOut codec i call view rows) := by
  obtain ⟨hview, hrows⟩ := Prod.mk.inj (h.marked i call view rows hi)
  subst hrows
  have hmem : ∀ r ∈ Sqlite.selectDue call q.jobs,
      q.jobs.get? r.id = some r ∧ call.isDue r = true := by
    intro r hr
    obtain ⟨hr, hdue⟩ := List.mem_filter.mp (mem_due_of_sqlite_selectDue hr)
    exact ⟨Table.get?_of_mem hr, hdue⟩
  have heffect := @Effect.claim codec q i (.marked call view _) _ (q.fetches.set i none)
    hi Sqlite.nodup_selectDue_ids hmem
  have hjobs : Pg.markRunning call ((Sqlite.selectDue call q.jobs).map JobRow.id) q.jobs = view :=
    lockAndMark_fst.symm.trans hview
  rw [Queue.handOut, collect_isOk, ← hjobs]
  exact heffect

/-- An operation of the table that inserts the job, or fails and leaves the table as it is. -/
theorem enqueueAfter_cases {now : ℤ} {jobType payload : String} {delay retries : ℕ} {v : Jobs} :
    (∃ runAt, backend.enqueueAfter codec now jobType payload delay retries v =
      (v.insert jobType payload runAt (maxAttemptsOf retries), .ok ())) ∨
    ∃ e, backend.enqueueAfter codec now jobType payload delay retries v = (v, .error e) := by
  rw [Backend.enqueueAfter]
  generalize addMillis now (castMillis delay) = runAt
  cases runAt with
  | error e => exact .inr ⟨e, rfl⟩
  | ok t =>
    rw [Jobs.orStop_ok]
    cases backend with
    | sqlite => exact .inl ⟨t, rfl⟩
    | pg =>
      rw [Backend.insert, Pg.insert, Pg.timestamp]
      split
      · rw [Jobs.orStop_ok]
        split
        · exact .inl ⟨t, rfl⟩
        · exact .inr ⟨_, rfl⟩
      · exact .inr ⟨_, rfl⟩

theorem effect_enqueue {now : ℤ} {jobType payload : String} {delay retries : ℕ}
    (h : q.enqueue codec backend now jobType payload delay retries = some q') :
    Effect codec q (.enqueue now jobType payload delay retries) q' := by
  rw [Queue.enqueue] at h
  split at h
  · next hadmits =>
    rcases enqueueAfter_cases with ⟨runAt, hreply⟩ | ⟨e, hreply⟩
    · rw [hreply] at h
      cases h
      exact .enqueue now jobType payload delay retries runAt (Queue.admits_iff.mp hadmits).1
    · rw [hreply] at h
      cases h
      exact .failed _
  · cases h

theorem effect_sweep {now : ℤ} {options : WorkerOptions}
    (h : q.sweep backend now options = some q') : Effect codec q (.sweep now options) q' := by
  rw [Queue.sweep] at h
  generalize holder : Backend.olderThan now options = olderThan at h
  cases olderThan with
  | error e =>
    rw [Queue.orStop_error] at h
    cases h
    exact .failed _
  | ok t =>
    rw [Queue.orStop_ok] at h
    split at h
    · next hadmits =>
      cases h
      have hfree := (Queue.admits_iff.mp hadmits).1
      cases backend with
      | sqlite => exact .sweep now options t holder hfree
      | pg =>
        rw [Backend.reenqueueOrphaned, Pg.reenqueueOrphaned, Pg.timestamp]
        split
        · exact .sweep now options t holder hfree
        · exact .failed _
    · cases h

theorem effect_deleteBatch {now retentionDays : ℤ} {pick : List ℕ}
    (h : q.deleteBatch backend now retentionDays pick = some q') :
    Effect codec q (.deleteBatch now retentionDays pick) q' := by
  rw [Queue.deleteBatch] at h
  generalize backend.cutoff now retentionDays = cutoff at h
  cases cutoff with
  | error e =>
    rw [Queue.orStop_error] at h
    cases h
    exact .failed _
  | ok t =>
    rw [Queue.orStop_ok] at h
    extract_lets expired at h
    split at h
    · next hguard =>
      cases h
      have hfree := (Queue.admits_iff.mp hguard.2.2.2).1
      refine .deleteBatch now retentionDays pick hfree fun id hid => ?_
      obtain ⟨r, hr, rfl⟩ := List.mem_map.mp (hguard.1 hid)
      obtain ⟨hr, hexpired⟩ := List.mem_filter.mp hr
      exact ⟨r, Table.get?_of_mem hr, JobRow.finished_of_isExpired hexpired⟩
    · cases h

/-- Every step has one of the effects. -/
theorem effect_act (h : q.Fetching backend) {a : Action} (hact : q.act codec backend a = some q') :
    Effect codec q a q' := by
  cases a with
  | enqueue now jobType payload delay retries => exact effect_enqueue hact
  | fetch call busy =>
    simp only [Queue.act, Queue.fetchDue] at hact
    cases backend with
    | pg =>
      simp only at hact
      split at hact
      · cases hact
        exact .failed _
      · cases hact
        exact .fetching _ _ rfl
    | sqlite =>
      simp only at hact
      split at hact
      · cases hact
      · cases hact
        exact .fetching _ _ rfl
  | mark i =>
    simp only [Queue.act, Queue.lockAndMark] at hact
    split at hact
    · cases hact
      exact .fetching _ _ rfl
    · cases hact
  | commit i =>
    simp only [Queue.act, Queue.commit] at hact
    split at hact
    · next hi =>
      cases hact
      exact effect_commit_locked h hi
    · next hi =>
      cases hact
      exact effect_commit_marked h hi
    · cases hact
  | rollback i =>
    obtain ⟨o, -, rfl⟩ := Option.map_eq_some_iff.mp hact
    exact .fetching _ _ rfl
  | handle k =>
    simp only [Queue.act, Queue.handle] at hact
    split at hact
    · next t ht =>
      split at hact
      · next hstage =>
        cases hact
        exact .handle k t ht hstage
      · cases hact
    · cases hact
  | finish k now outcome options =>
    simp only [Queue.act, Queue.finish] at hact
    split at hact
    · next t ht =>
      split at hact
      · next hguard =>
        cases hact
        obtain ⟨hfree, hlocked⟩ := Queue.admits_iff.mp hguard.2.2
        have hwrites := finish_writes backend now t.job.jobMeta outcome options q.jobs
        exact .finish k now outcome options t _ ht hguard.1 hfree
          (hlocked t.id (List.mem_singleton_self _)) hwrites
      · cases hact
    · cases hact
  | lose k =>
    obtain ⟨t, ht, rfl⟩ := Option.map_eq_some_iff.mp hact
    exact .lose k t ht
  | sweep now options => exact effect_sweep hact
  | deleteBatch now retentionDays pick => exact effect_deleteBatch hact

/-! ## The invariant -/

/-- A fetch of Postgres locks rows that nobody holds. -/
theorem Queue.Fetching.lock (h : q.Fetching .pg) {call : FetchCall} {busy : ℕ → Bool}
    (hbusy : ∀ id, q.holds id = true → busy id = true) :
    ({ q with fetches := q.fetches ++
      [some (.locked call (Pg.selectDue call busy q.jobs))] } : Queue).Fetching .pg := by
  have hshared : ∀ i o, q.fetch? i = some o → o.exclusive = false := fun i o hi => h.kind i o hi
  have hapart : ∀ i c rows, q.fetch? i = some (.locked c rows) → ∀ r ∈ rows,
      ∀ s ∈ Pg.selectDue call busy q.jobs, s.id ≠ r.id := by
    intro i c rows hi r hr s hs hid
    have hheld := hbusy r.id (Queue.holds_of_locked hi hr)
    have hfree := (Pg.mem_selectDue hs).2.2
    rw [hid, hheld] at hfree
    cases hfree
  constructor
  · intro i o hi
    rcases slot_append.mp hi with hi | ⟨-, rfl⟩
    · exact h.kind i o hi
    · rfl
  · intro i j o p hi hj ho
    rcases slot_append.mp hi with hi | ⟨-, rfl⟩
    · rw [hshared i o hi] at ho
      cases ho
    · cases ho
  · intro i c rows hi
    rcases slot_append.mp hi with hi | ⟨-, heq⟩
    · exact h.locked i c rows hi
    · cases heq
      exact ⟨Pg.nodup_selectDue_ids, fun r hr =>
        ⟨(Pg.mem_selectDue hr).1, (Pg.mem_selectDue hr).2.1⟩⟩
  · intro i j c c' rows rows' hi hj hne r hr s hs
    rcases slot_append.mp hi with hi | ⟨hil, heq⟩ <;> rcases slot_append.mp hj with hj | ⟨hjl, heq'⟩
    · exact h.apart i j c c' rows rows' hi hj hne r hr s hs
    · cases heq'
      exact hapart i c rows hi r hr s hs
    · cases heq
      exact (hapart j c' rows' hj s hs r hr).symm
    · exact absurd (hjl.trans hil.symm) hne
  · intro i c view rows hi
    rcases slot_append.mp hi with hi | ⟨-, heq⟩
    · exact h.marked i c view rows hi
    · cases heq

/-- A fetch of SQLite begins when no other is open. -/
theorem Queue.Fetching.begin (h : q.Fetching .sqlite) (hfree : q.exclusive = false)
    {call : FetchCall} :
    ({ q with fetches := q.fetches ++ [some (.begun call)] } : Queue).Fetching .sqlite := by
  have hnone : ∀ i o, q.fetch? i ≠ some o := by
    intro i o hi
    have := Queue.exclusive_of_fetch? hi (h.kind i o hi)
    rw [hfree] at this
    cases this
  have honly : ∀ i o, (((q.fetches ++ [some (.begun call)])[i]?).join = some o) →
      i = q.fetches.length ∧ o = .begun call := by
    intro i o hi
    exact (slot_append.mp hi).resolve_left (hnone i o)
  constructor
  · intro i o hi
    rw [(honly i o hi).2]
    rfl
  · intro i j o p hi hj _
    rw [(honly i o hi).1, (honly j p hj).1]
  · intro i c rows hi
    cases (honly i _ hi).2
  · intro i j c c' rows rows' hi
    cases (honly i _ hi).2
  · intro i c view rows hi
    cases (honly i _ hi).2

/-- The statements of `lock_and_mark`. -/
theorem Queue.Fetching.mark (h : q.Fetching backend) {i : ℕ} {call : FetchCall}
    (hi : q.fetch? i = some (.begun call)) :
    ({ q with fetches := q.fetches.set i (some (.marked call
      (Sqlite.lockAndMark call q.jobs).1 (Sqlite.lockAndMark call q.jobs).2)) } :
        Queue).Fetching backend := by
  have hnone : ∀ j o, j ≠ i → q.fetch? j ≠ some o := fun j o hj ho =>
    hj (h.alone i j _ o hi ho rfl)
  have honly : ∀ j o, (((q.fetches.set i (some (.marked call
      (Sqlite.lockAndMark call q.jobs).1 (Sqlite.lockAndMark call q.jobs).2)))[j]?).join =
        some o) → j = i ∧ o = .marked call (Sqlite.lockAndMark call q.jobs).1
          (Sqlite.lockAndMark call q.jobs).2 := by
    intro j o hj
    rw [slot_set_some hi] at hj
    split at hj
    · next heq => exact ⟨heq, (Option.some_inj.mp hj).symm⟩
    · next hne => exact absurd hj (hnone j o hne)
  constructor
  · intro j o hj
    rw [(honly j o hj).2]
    exact h.kind i (.begun call) hi
  · intro j k o p hj hk _
    rw [(honly j o hj).1, (honly k p hk).1]
  · intro j c rows hj
    cases (honly j _ hj).2
  · intro j k c c' rows rows' hj
    cases (honly j _ hj).2
  · intro j c view rows hj
    cases (honly j _ hj).2
    rfl

/-- After a commit the other open fetches are in order: their rows are not those of fetch `i`. -/
theorem Queue.Fetching.commit (h : q.Fetching backend) {i : ℕ} {o : OpenFetch}
    (hi : q.fetch? i = some o) {call : FetchCall} {jobs : Jobs} {rows : List JobRow}
    (hjobs : ∀ c rs, o = .locked c rs → ∀ id r, q.jobs.get? id = some r →
      id ∉ rs.map JobRow.id → jobs.get? id = some r) :
    (q.handOut codec i call jobs rows).Fetching backend := by
  have hopen : ∀ j p, (q.handOut codec i call jobs rows).fetch? j = some p →
      j ≠ i ∧ q.fetch? j = some p := fun j p hj => Queue.fetch?_endFetch.mp hj
  constructor
  · intro j p hj
    exact h.kind j p (hopen j p hj).2
  · intro j k p p' hj hk
    exact h.alone j k p p' (hopen j p hj).2 (hopen k p' hk).2
  · intro j c rs hj
    obtain ⟨hne, hj⟩ := hopen j _ hj
    obtain ⟨hnodup, hrows⟩ := h.locked j c rs hj
    refine ⟨hnodup, fun r hr => ⟨?_, (hrows r hr).2⟩⟩
    cases o with
    | locked c' rs' =>
      refine hjobs c' rs' rfl r.id r (hrows r hr).1 fun hid => ?_
      obtain ⟨s, hs, hid⟩ := List.mem_map.mp hid
      exact h.apart i j c' c rs' rs hi hj hne s hs r hr hid.symm
    | begun c' => exact absurd (h.alone i j _ _ hi hj rfl) hne
    | marked c' view' rs' => exact absurd (h.alone i j _ _ hi hj rfl) hne
  · intro j k c c' rs rs' hj hk
    exact h.apart j k c c' rs rs' (hopen j _ hj).2 (hopen k _ hk).2
  · intro j c view rs hj
    obtain ⟨hne, hj⟩ := hopen j _ hj
    exact absurd (h.alone j i _ _ hj hi rfl).symm hne

/-- A step that is not part of a fetch. -/
theorem Effect.fetching_of_statement {a : Action} (he : Effect codec q a q')
    (h : q.Fetching backend) (ha : a.isFetching = false) (hcommit : ∀ i, a ≠ .commit i) :
    q'.Fetching backend := by
  cases he with
  | failed => exact h
  | fetching _ fetches ha' =>
    rw [ha] at ha'
    cases ha'
  | enqueue now jobType payload delay retries runAt hfree =>
    refine h.of_statement rfl hfree fun id r _ hget _ => ?_
    have hne : id ≠ q.jobs.nextId := Nat.ne_of_lt (Jobs.id_lt_of_get? hget)
    show (q.jobs.insert jobType payload runAt (maxAttemptsOf retries)).get? id = some r
    rw [Jobs.get?_insert, if_neg hne, hget]
  | claim i => exact absurd rfl (hcommit i)
  | handle k t ht hstage => exact h.of_same rfl rfl
  | finish k now outcome options t jobs ht hstage hfree hlocked hwrites =>
    refine h.of_statement rfl hfree fun id r hheld hget _ => ?_
    rcases hwrites with rfl | ⟨f, hf, -, rfl⟩
    · exact hget
    · have hid : r.id = id := Table.key_of_get? hget
      have hne : r.id ≠ t.job.jobMeta.id := by
        rintro heq
        rw [← hid, heq] at hheld
        exact absurd (hheld.symm.trans hlocked) Bool.noConfusion
      show (q.jobs.update (fun r => r.id = t.job.jobMeta.id) f hf).get? id = some r
      rw [Jobs.get?_update, hget, Option.map_some, if_neg (by simpa using hne)]
  | lose k t ht => exact h.of_same rfl rfl
  | sweep now options t ht hfree =>
    refine h.of_statement rfl hfree fun id r _ hget hpending => ?_
    have hnot : ¬r.isOrphaned t = true := fun horphan => by
      rw [JobRow.running_of_isOrphaned horphan] at hpending
      cases hpending
    show (q.jobs.update (JobRow.isOrphaned t) JobRow.reenqueue JobRow.reenqueue_id).get? id = some r
    rw [Jobs.get?_update, hget, Option.map_some, if_neg hnot]
  | deleteBatch now retentionDays pick hfree hpick =>
    refine h.of_statement rfl hfree fun id r _ hget hpending => ?_
    have hnot : id ∉ pick := fun hid => by
      obtain ⟨s, hs, hfinished⟩ := hpick id hid
      rw [hget] at hs
      cases hs
      rw [hpending] at hfinished
      cases hfinished
    show (q.jobs.delete pick).get? id = some r
    rw [Jobs.get?_delete, if_neg hnot, hget]

/-- Every step keeps the invariant of the open fetches. -/
theorem fetching_act (h : q.Fetching backend) {a : Action}
    (hact : q.act codec backend a = some q') : q'.Fetching backend := by
  have hstatement := (effect_act h hact).fetching_of_statement h
  cases a with
  | fetch call busy =>
    simp only [Queue.act, Queue.fetchDue] at hact
    cases backend with
    | pg =>
      simp only at hact
      split at hact
      · cases hact
        exact h
      · cases hact
        exact h.lock fun id hid => by simp [hid]
    | sqlite =>
      simp only at hact
      split at hact
      · cases hact
      · next hfree =>
        cases hact
        exact h.begin (Bool.eq_false_iff.mpr hfree)
  | mark i =>
    simp only [Queue.act, Queue.lockAndMark] at hact
    split at hact
    · next hi =>
      cases hact
      exact h.mark hi
    · cases hact
  | commit i =>
    simp only [Queue.act, Queue.commit] at hact
    split at hact
    · next call rows hi =>
      cases hact
      refine h.commit hi fun c rs heq id r hget hid => ?_
      cases heq
      rw [get?_markRunning, hget, Option.map_some, if_neg hid]
    · next hi =>
      cases hact
      exact h.commit hi fun c rs heq => by cases heq
    · cases hact
  | rollback i =>
    obtain ⟨o, -, rfl⟩ := Option.map_eq_some_iff.mp hact
    exact h.endFetch
  | _ => exact hstatement rfl fun i => nofun

end Steps

/-! ## What a step does to one row -/

/-- What a step does to the row `id`. -/
inductive RowEffect (q : Queue) (id : ℕ) : Action → Option JobRow → Option JobRow → Prop where
  | same (a : Action) (row : Option JobRow) : RowEffect q id a row row
  | created (now : ℤ) (jobType payload : String) (delay retries : ℕ) (runAt : ℤ)
      (hid : id = q.jobs.nextId) :
      RowEffect q id (.enqueue now jobType payload delay retries) none
        (some (JobRow.queued id jobType payload runAt (maxAttemptsOf retries)))
  | claimed (i : ℕ) (o : OpenFetch) (r : JobRow) (hopen : q.fetch? i = some o)
      (hdue : o.call.isDue r = true) :
      RowEffect q id (.commit i) (some r) (some (r.markRunning o.call.lockBy o.call.now))
  | completed (k : ℕ) (now : ℤ) (outcome : Backend.Outcome) (options : WorkerOptions) (t : Task)
      (f : JobRow → JobRow) (r : JobRow) (ht : q.tasks[k]? = some t) (hstage : t.stage = .running)
      (hid : t.id = id) (hf : Completes t.job.jobMeta outcome f) :
      RowEffect q id (.finish k now outcome options) (some r) (some (f r))
  | reopened (now : ℤ) (options : WorkerOptions) (t : ℤ) (r : JobRow)
      (ht : Backend.olderThan now options = .ok t) (horphaned : r.isOrphaned t = true) :
      RowEffect q id (.sweep now options) (some r) (some r.reenqueue)
  | deleted (now retentionDays : ℤ) (pick : List ℕ) (r : JobRow) (hid : id ∈ pick)
      (hfinished : r.status.finished = true) :
      RowEffect q id (.deleteBatch now retentionDays pick) (some r) none

theorem Effect.row {codec : Codec} {q q' : Queue} {a : Action} (he : Effect codec q a q')
    (id : ℕ) : RowEffect q id a (q.jobs.get? id) (q'.jobs.get? id) := by
  cases he with
  | failed => exact .same a _
  | fetching _ fetches ha => exact .same a _
  | enqueue now jobType payload delay retries runAt hfree =>
    show RowEffect q id _ _
      ((q.jobs.insert jobType payload runAt (maxAttemptsOf retries)).get? id)
    rw [Jobs.get?_insert]
    split
    · next hid =>
      rw [hid, Jobs.get?_nextId]
      exact hid ▸ .created now jobType payload delay retries runAt hid
    · exact .same _ _
  | claim i o rows fetches hopen hnodup hrows =>
    show RowEffect q id _ _ ((Pg.markRunning o.call (rows.map JobRow.id) q.jobs).get? id)
    rw [get?_markRunning]
    cases hget : q.jobs.get? id with
    | none => exact .same _ _
    | some r =>
      rw [Option.map_some]
      split
      · next hid =>
        obtain ⟨s, hs, rfl⟩ := List.mem_map.mp hid
        obtain ⟨hs', hdue⟩ := hrows s hs
        rw [hget] at hs'
        cases hs'
        exact .claimed i o r hopen hdue
      · exact .same _ _
  | handle k t ht hstage => exact .same _ _
  | finish k now outcome options t jobs ht hstage hfree hlocked hwrites =>
    show RowEffect q id _ _ (jobs.get? id)
    rcases hwrites with rfl | ⟨f, hf, hcompletes, rfl⟩
    · exact .same _ _
    · rw [Jobs.get?_update]
      cases hget : q.jobs.get? id with
      | none => exact .same _ _
      | some r =>
        have hid : r.id = id := Table.key_of_get? hget
        rw [Option.map_some]
        split
        · next heq =>
          have hrid : r.id = t.job.jobMeta.id := by simpa using heq
          exact .completed k now outcome options t f r ht hstage (hrid.symm.trans hid) hcompletes
        · exact .same _ _
  | lose k t ht => exact .same _ _
  | sweep now options t ht hfree =>
    show RowEffect q id _ _
      ((q.jobs.update (JobRow.isOrphaned t) JobRow.reenqueue JobRow.reenqueue_id).get? id)
    rw [Jobs.get?_update]
    cases hget : q.jobs.get? id with
    | none => exact .same _ _
    | some r =>
      rw [Option.map_some]
      split
      · next horphaned => exact .reopened now options t r ht horphaned
      · exact .same _ _
  | deleteBatch now retentionDays pick hfree hpick =>
    show RowEffect q id _ _ ((q.jobs.delete pick).get? id)
    rw [Jobs.get?_delete]
    split
    · next hid =>
      obtain ⟨r, hget, hfinished⟩ := hpick id hid
      rw [hget]
      exact .deleted now retentionDays pick r hid hfinished
    · exact .same _ _

end Slab.JobQueue
