import Slab.JobQueue.Equivalence
import Slab.JobQueue.Exclusivity
import Slab.JobQueue.RetryBudget

/-!
# What is left to be done about a job

As long as no worker crashes, every step of the queue either leaves a job alone or moves it on:
from pending to running, with one task at work on it, and from there to the end of the attempt. What
is left to be done becomes less with each of these moves, and no step makes it more.

## Main definitions

- `Queue.Manned` — who is at work on a running job
- `Queue.Calm` — a step in which nothing is lost
- `Change` — what such a step does to one job
- `Queue.weight` — what is left to be done about one job

## Main results

- `manned_act` — every step keeps the tasks in order
- `change_act` — every calm step is a change, for every job
- `Change.weight_le`, `Change.weight_lt` — what is left becomes less
-/

namespace Slab.JobQueue

open Txn

/-! ## Who is at work on a job -/

/-- A task that has not ended. -/
def Task.Live (t : Task) : Prop := t.stage ≠ .ended

instance (t : Task) : Decidable t.Live := inferInstanceAs (Decidable (_ ≠ _))

theorem Task.not_live_finish (t : Task) : ¬t.finish.Live := fun h => h rfl

theorem Task.finish_of_not_live {t : Task} (h : ¬t.Live) : t.finish = t := by
  have hstage : t.stage = .ended := not_not.mp h
  cases t
  cases hstage
  rfl

/-- Some task is at work on the job. -/
def Queue.attended (q : Queue) (id : ℕ) : Bool :=
  q.tasks.any fun t => decide (t.id = id) && decide t.Live

/-- A sweep puts back only jobs that no task is at work on. -/
def Queue.SweepsUnattended (q : Queue) (a : Action) : Prop :=
  ∀ now options t, a = .sweep now options → Backend.olderThan now options = .ok t →
    ∀ id r, q.jobs.get? id = some r → r.isOrphaned t = true → q.attended id = false

/-- At most one task is at work on a job, which is running then and as the task has read it. -/
structure Queue.Manned (q : Queue) : Prop where
  known : ∀ t ∈ q.tasks, t.id < q.jobs.nextId
  own : ∀ (k : ℕ) (t : Task), q.tasks[k]? = some t → t.Live →
    ∃ r, q.jobs.get? t.id = some r ∧ r.status = .running ∧ r.jobMeta = t.job.jobMeta
  alone : ∀ (k l : ℕ) (t u : Task), q.tasks[k]? = some t → q.tasks[l]? = some u → t.Live → u.Live →
    t.id = u.id → k = l

namespace Queue

variable {q : Queue} {id : ℕ}

theorem attended_iff :
    q.attended id = true ↔ ∃ (k : ℕ) (t : Task), q.tasks[k]? = some t ∧ t.id = id ∧ t.Live := by
  rw [attended, List.any_eq_true]
  constructor
  · rintro ⟨t, ht, h⟩
    obtain ⟨k, hk⟩ := List.mem_iff_getElem?.mp ht
    rw [Bool.and_eq_true, decide_eq_true_eq, decide_eq_true_eq] at h
    exact ⟨k, t, hk, h⟩
  · rintro ⟨k, t, hk, hid, hlive⟩
    exact ⟨t, List.mem_of_getElem? hk, by simp [hid, hlive]⟩

theorem attended_eq_false_iff :
    q.attended id = false ↔ ∀ (k : ℕ) (t : Task), q.tasks[k]? = some t → t.id = id → ¬t.Live := by
  rw [← Bool.not_eq_true, attended_iff]
  exact ⟨fun h k t ht hid hlive => h ⟨k, t, ht, hid, hlive⟩,
    fun h ⟨k, t, ht, hid, hlive⟩ => h k t ht hid hlive⟩

theorem attended_append (q : Queue) (new : List Task) (jobs : Jobs)
    (fetches : List (Option OpenFetch)) (id : ℕ) :
    ({ q with jobs := jobs, fetches := fetches, tasks := q.tasks ++ new } : Queue).attended id =
      (q.attended id || new.any fun t => decide (t.id = id) && decide t.Live) :=
  List.any_append

theorem manned_init : init.Manned where
  known _ h := absurd h List.not_mem_nil
  own _ _ h := by cases h
  alone _ _ _ _ h := by cases h

/-- Only a running job is attended. -/
theorem Manned.running (h : q.Manned) (hattended : q.attended id = true) :
    ∃ r, q.jobs.get? id = some r ∧ r.status = .running := by
  obtain ⟨k, t, ht, rfl, hlive⟩ := attended_iff.mp hattended
  obtain ⟨r, hr, hrunning, -⟩ := h.own k t ht hlive
  exact ⟨r, hr, hrunning⟩

theorem Manned.attended_eq_false (h : q.Manned) {r : JobRow} (hr : q.jobs.get? id = some r)
    (hstatus : r.status ≠ .running) : q.attended id = false := by
  rw [← Bool.not_eq_true]
  intro hattended
  obtain ⟨s, hs, hrunning⟩ := h.running hattended
  rw [hr] at hs
  cases hs
  exact hstatus hrunning

end Queue

section Step

variable {codec : Codec} {backend : Backend} {q q' : Queue} {a : Action}

theorem getElem?_set_cases {l : List Task} {k j : ℕ} {t u : Task}
    (h : (l.set k u)[j]? = some t) : j = k ∧ t = u ∨ j ≠ k ∧ l[j]? = some t := by
  rw [List.getElem?_set] at h
  split at h
  · next hk =>
    split at h
    · exact .inl ⟨hk.symm, (Option.some_inj.mp h).symm⟩
    · cases h
  · next hk => exact .inr ⟨Ne.symm hk, h⟩

/-- A task that takes the place of another one of the same job, at work only if that was. -/
theorem Queue.Manned.set (h : q.Manned) {k : ℕ} {t u : Task} (ht : q.tasks[k]? = some t)
    (hjob : u.job = t.job) (hlive : u.Live → t.Live) {jobs : Jobs}
    (hnext : jobs.nextId = q.jobs.nextId)
    (hjobs : ∀ (j : ℕ) (s : Task), (q.tasks.set k u)[j]? = some s → s.Live →
      jobs.get? s.id = q.jobs.get? s.id) :
    ({ q with jobs := jobs, tasks := q.tasks.set k u } : Queue).Manned := by
  have hid : u.id = t.id := by rw [Task.id, Task.id, hjob]
  have hold : ∀ (j : ℕ) (s : Task), (q.tasks.set k u)[j]? = some s → s.Live →
      ∃ s' : Task, q.tasks[j]? = some s' ∧ s'.Live ∧ s'.job = s.job := by
    intro j s hs hl
    rcases getElem?_set_cases hs with ⟨rfl, rfl⟩ | ⟨-, hs⟩
    · exact ⟨t, ht, hlive hl, hjob.symm⟩
    · exact ⟨s, hs, hl, rfl⟩
  constructor
  · intro s hs
    show s.id < jobs.nextId
    rw [hnext]
    rcases List.mem_or_eq_of_mem_set hs with hs | rfl
    · exact h.known s hs
    · exact hid ▸ h.known t (List.mem_of_getElem? ht)
  · intro j s hs hl
    obtain ⟨s', hs', hl', hjob'⟩ := hold j s hs hl
    obtain ⟨r, hr, hrunning, hmeta⟩ := h.own j s' hs' hl'
    have hids : s'.id = s.id := by rw [Task.id, Task.id, hjob']
    exact ⟨r, (hjobs j s hs hl).trans (hids ▸ hr), hrunning, hmeta.trans (by rw [hjob'])⟩
  · intro i j s r hs hr hls hlr hids
    obtain ⟨s', hs', hls', hjs⟩ := hold i s hs hls
    obtain ⟨r', hr', hlr', hjr⟩ := hold j r hr hlr
    refine h.alone i j s' r' hs' hr' hls' hlr' ?_
    rw [Task.id, Task.id, hjs, hjr]
    exact hids

/-- The tasks are as they were, and so are the rows of the jobs that are attended. -/
theorem Queue.Manned.of_jobs (h : q.Manned) (htasks : q'.tasks = q.tasks)
    (hnext : q.jobs.nextId ≤ q'.jobs.nextId)
    (hjobs : ∀ id r, q.attended id = true → q.jobs.get? id = some r → r.status = .running →
      q'.jobs.get? id = some r) : q'.Manned := by
  constructor
  · intro t ht
    exact lt_of_lt_of_le (h.known t (htasks ▸ ht)) hnext
  · intro k t ht hlive
    rw [htasks] at ht
    obtain ⟨r, hr, hrunning, hmeta⟩ := h.own k t ht hlive
    exact ⟨r, hjobs t.id r (attended_iff.mpr ⟨k, t, ht, rfl, hlive⟩) hr hrunning, hrunning, hmeta⟩
  · rw [htasks]
    exact h.alone

/-- Every step keeps the tasks in order, if it is no sweep that puts back a job at work. -/
theorem manned_act (h : q.Manned) (he : Effect codec q a q') (ha : q.SweepsUnattended a) :
    q'.Manned := by
  cases he with
  | failed => exact h
  | fetching a fetches hfetching => exact h.of_jobs rfl (le_refl _) fun _ _ _ hr _ => hr
  | enqueue now jobType payload delay retries runAt hfree =>
    refine h.of_jobs rfl (Nat.le_succ _) fun id r _ hr _ => ?_
    exact Jobs.get?_insert.trans ((if_neg (Nat.ne_of_lt (Jobs.id_lt_of_get? hr))).trans hr)
  | claim i o rows fetches hopen hnodup hrows =>
    -- the jobs that are claimed were pending, and nobody was at work on them
    have hpending : ∀ r ∈ rows, q.attended r.id = false := by
      intro r hr
      obtain ⟨hget, hdue⟩ := hrows r hr
      refine h.attended_eq_false hget ?_
      rw [(JobRow.isDue_iff.mp hdue).2.1]
      decide
    have hold : ∀ (k : ℕ) (t : Task), q.tasks[k]? = some t → t.Live →
        t.id ∉ rows.map JobRow.id := by
      intro k t ht hlive hid
      obtain ⟨r, hr, hrid⟩ := List.mem_map.mp hid
      exact Queue.attended_eq_false_iff.mp (hpending r hr) k t ht hrid.symm hlive
    have hcases : ∀ (k : ℕ) (t : Task), (q.tasks ++ rows.map (Task.spawn i o.call.jobType
        (if rows.all fun r => codec.parses r.payload then Stage.waiting else Stage.ended)))[k]? =
          some t → q.tasks[k]? = some t ∨ q.tasks.length ≤ k ∧
            ∃ r, rows[k - q.tasks.length]? = some r ∧ t.id = r.id ∧ t.job = r.fetched := by
      intro k t ht
      rcases Nat.lt_or_ge k q.tasks.length with hk | hk
      · exact .inl (by rwa [List.getElem?_append_left hk] at ht)
      · rw [List.getElem?_append_right hk, List.getElem?_map] at ht
        obtain ⟨r, hr, rfl⟩ := Option.map_eq_some_iff.mp ht
        exact .inr ⟨hk, r, hr, rfl, rfl⟩
    constructor
    · exact (Effect.claim i o rows fetches hopen hnodup hrows : Effect codec q _ _).known h.known
    · intro k t ht hlive
      show ∃ r, (Pg.markRunning o.call (rows.map JobRow.id) q.jobs).get? t.id = some r ∧ _
      rw [get?_markRunning]
      rcases hcases k t ht with ht | ⟨-, r, hr, hid, hjob⟩
      · obtain ⟨r, hr, hrunning, hmeta⟩ := h.own k t ht hlive
        rw [hr, Option.map_some, if_neg (hold k t ht hlive)]
        exact ⟨r, rfl, hrunning, hmeta⟩
      · have hmem := List.mem_of_getElem? hr
        rw [hid, (hrows r hmem).1, Option.map_some, if_pos (List.mem_map_of_mem hmem), hjob]
        exact ⟨_, rfl, rfl, rfl⟩
    · intro k l t u ht hu hlt hlu hids
      rcases hcases k t ht with ht' | ⟨hk, r, hr, hrid, -⟩ <;>
        rcases hcases l u hu with hu' | ⟨hl, s, hs, hsid, -⟩
      · exact h.alone k l t u ht' hu' hlt hlu hids
      · have hmem := List.mem_map_of_mem (f := JobRow.id) (List.mem_of_getElem? hs)
        exact absurd (hids.trans hsid ▸ hmem) (hold k t ht' hlt)
      · have hmem := List.mem_map_of_mem (f := JobRow.id) (List.mem_of_getElem? hr)
        exact absurd (hids.symm.trans hrid ▸ hmem) (hold l u hu' hlu)
      · have hlen := (List.getElem?_eq_some_iff.mp hr).1
        have hsame : (rows.map JobRow.id)[k - q.tasks.length]? =
            (rows.map JobRow.id)[l - q.tasks.length]? := by
          rw [List.getElem?_map, List.getElem?_map, hr, hs, Option.map_some, Option.map_some,
            ← hrid, ← hsid, hids]
        have := (List.getElem?_inj (by rwa [List.length_map]) hnodup).mp hsame
        omega
  | handle k t ht hstage =>
    have hlive : t.Live := by
      rw [Task.Live, hstage]
      decide
    exact h.set (u := t.handle codec) ht rfl (fun _ => hlive) rfl fun _ _ _ _ => rfl
  | finish k now outcome options t jobs ht hstage hfree hlocked hwrites =>
    have hlive : t.Live := by
      rw [Task.Live, hstage]
      decide
    have hfinished := t.not_live_finish
    rcases hwrites with rfl | ⟨f, hf, hcompletes, rfl⟩
    · exact h.set (u := t.finish) ht rfl (fun hl => absurd hl hfinished) rfl fun _ _ _ _ => rfl
    · refine h.set (u := t.finish) ht rfl (fun hl => absurd hl hfinished) rfl fun j s hs hl => ?_
      -- the others at work are at work on other jobs
      rcases getElem?_set_cases hs with ⟨-, rfl⟩ | ⟨hj, hs⟩
      · exact absurd hl hfinished
      · rw [Jobs.get?_update]
        cases hr : q.jobs.get? s.id with
        | none => rfl
        | some r =>
          have hne : r.id ≠ t.job.jobMeta.id := by
            rw [show r.id = s.id from Table.key_of_get? hr]
            exact fun hid => hj (h.alone j k s t hs ht hl hlive hid)
          rw [Option.map_some, if_neg (by simpa using hne)]
  | lose k t ht =>
    have hfinished := t.not_live_finish
    exact h.set (u := t.finish) ht rfl (fun hl => absurd hl hfinished) rfl fun _ _ _ _ => rfl
  | sweep now options t ht hfree =>
    refine h.of_jobs rfl (le_refl _) fun id r hattended hr hrunning => ?_
    have horphaned : r.isOrphaned t ≠ true := by
      intro horphaned
      rw [ha now options t rfl ht id r hr horphaned] at hattended
      cases hattended
    show (q.jobs.update _ _ _).get? id = some r
    rw [Jobs.get?_update, hr, Option.map_some, if_neg horphaned]
  | deleteBatch now retentionDays pick hfree hpick =>
    refine h.of_jobs rfl (le_refl _) fun id r _ hr hrunning => ?_
    show (q.jobs.delete pick).get? id = some r
    rw [Jobs.get?_delete, if_neg, hr]
    intro hid
    obtain ⟨s, hs, hfinished⟩ := hpick id hid
    rw [hr] at hs
    cases hs
    rw [hrunning] at hfinished
    cases hfinished

end Step

/-! ## What a calm step does to a job -/

/-- No task is lost at work, and the statement with which a task ends does not fail. -/
def Queue.Calm (backend : Backend) (q : Queue) (a : Action) : Prop :=
  (∀ k t, a = .lose k → q.tasks[k]? = some t → ¬t.Live) ∧
    ∀ k now outcome options t, a = .finish k now outcome options → q.tasks[k]? = some t →
      (backend.finish now t.job.jobMeta outcome options q.jobs).2 = .ok ()

/-- What a step does to the row of a job, and to whether the job is attended. -/
inductive Change : Option JobRow × Bool → Option JobRow × Bool → Prop where
  | same (x : Option JobRow × Bool) : Change x x
  | claimed (r : JobRow) (lockBy : String) (now : ℤ) (h : r.status = .pending) :
      Change (some r, false) (some (r.markRunning lockBy now), true)
  | completed (r : JobRow) (outcome : Backend.Outcome) (f : JobRow → JobRow)
      (h : r.status = .running) (hf : Completes r.jobMeta outcome f) :
      Change (some r, true) (some (f r), false)
  | reopened (r : JobRow) (h : r.status = .running) :
      Change (some r, false) (some r.reenqueue, false)
  | deleted (r : JobRow) (h : r.status.finished = true) : Change (some r, false) (none, false)

/-- The row of a job, and whether it is attended. -/
def Queue.view (q : Queue) (id : ℕ) : Option JobRow × Bool := (q.jobs.get? id, q.attended id)

section Changes

variable {codec : Codec} {backend : Backend} {q q' : Queue} {a : Action} {id : ℕ}

/-- A statement that does not fail writes the outcome. -/
theorem finish_completes {now : ℤ} {jobMeta : JobMeta} {outcome : Backend.Outcome}
    {options : WorkerOptions} {v : Jobs}
    (h : (backend.finish now jobMeta outcome options v).2 = .ok ()) :
    ∃ f hf, Completes jobMeta outcome f ∧ (backend.finish now jobMeta outcome options v).1 =
      v.update (fun r => r.id = jobMeta.id) f hf := by
  cases outcome with
  | ok u => exact ⟨_, JobRow.markDone_id now, .done now, by cases backend <;> rfl⟩
  | error e =>
    rw [Backend.finish, Backend.finishFailure] at h ⊢
    by_cases hretry : jobMeta.attempts + 1 < jobMeta.maxAttempts
    · rw [if_pos hretry] at h ⊢
      cases backend with
      | pg =>
        rw [Backend.scheduleRetry, Pg.scheduleRetry] at h ⊢
        generalize Pg.retryAt now _ = runAt at h ⊢
        cases runAt with
        | error e => cases h
        | ok t =>
          rw [Jobs.orStop_ok] at h ⊢
          split at h
          · next htext =>
            rw [if_pos htext]
            exact ⟨_, _, .retry t e hretry, rfl⟩
          · cases h
      | sqlite =>
        rw [Backend.scheduleRetry, Sqlite.scheduleRetry] at h ⊢
        generalize Sqlite.retryAt now _ = runAt at h ⊢
        cases runAt with
        | error e => cases h
        | ok t => exact ⟨_, _, .retry t e hretry, rfl⟩
    · rw [if_neg hretry] at h ⊢
      have hfailed := not_lt.mp hretry
      cases backend with
      | pg =>
        rw [Backend.markFailed, Pg.markFailed] at h ⊢
        split at h
        · next htext =>
          rw [if_pos htext]
          exact ⟨_, _, .failed now e hfailed, rfl⟩
        · cases h
      | sqlite => exact ⟨_, _, .failed now e hfailed, rfl⟩

/-- A task that goes on, or does not change, leaves it at that who is at work. -/
theorem attended_set {k : ℕ} {t u : Task} (ht : q.tasks[k]? = some t) (hid : u.id = t.id)
    (hlive : u.Live ↔ t.Live) (jobs : Jobs) (id : ℕ) :
    ({ q with jobs := jobs, tasks := q.tasks.set k u } : Queue).attended id = q.attended id := by
  obtain ⟨hlt, -⟩ := List.getElem?_eq_some_iff.mp ht
  rw [Bool.eq_iff_iff, Queue.attended_iff, Queue.attended_iff]
  constructor
  · rintro ⟨j, s, hs, rfl, hl⟩
    rcases getElem?_set_cases hs with ⟨rfl, rfl⟩ | ⟨-, hs⟩
    · exact ⟨j, t, ht, hid.symm, hlive.mp hl⟩
    · exact ⟨j, s, hs, rfl, hl⟩
  · rintro ⟨j, s, hs, rfl, hl⟩
    by_cases hj : j = k
    · subst hj
      rw [ht] at hs
      cases hs
      exact ⟨j, u, List.getElem?_set_self hlt, hid, hlive.mpr hl⟩
    · exact ⟨j, s, (List.getElem?_set_ne (Ne.symm hj)).trans hs, rfl, hl⟩

/-- When the task at work ends, nobody is at work on its job; other jobs are attended as before. -/
theorem attended_finish (h : q.Manned) {k : ℕ} {t : Task} (ht : q.tasks[k]? = some t)
    (hlive : t.Live) (jobs : Jobs) (id : ℕ) :
    ({ q with jobs := jobs, tasks := q.tasks.set k t.finish } : Queue).attended id =
      if id = t.id then false else q.attended id := by
  split
  · next hid =>
    subst hid
    refine Queue.attended_eq_false_iff.mpr fun j s hs hid hl => ?_
    rcases getElem?_set_cases hs with ⟨-, rfl⟩ | ⟨hj, hs⟩
    · exact t.not_live_finish hl
    · exact hj (h.alone j k s t hs ht hl hlive hid)
  · next hid =>
    rw [Bool.eq_iff_iff, Queue.attended_iff, Queue.attended_iff]
    constructor
    · rintro ⟨j, s, hs, rfl, hl⟩
      rcases getElem?_set_cases hs with ⟨-, rfl⟩ | ⟨-, hs⟩
      · exact absurd hl t.not_live_finish
      · exact ⟨j, s, hs, rfl, hl⟩
    · rintro ⟨j, s, hs, rfl, hl⟩
      have hj : k ≠ j := by
        rintro rfl
        rw [ht] at hs
        cases hs
        exact hid rfl
      exact ⟨j, s, (List.getElem?_set_ne hj).trans hs, rfl, hl⟩

/-- Every calm step is a change for every job that there is. -/
theorem change_act (hfetching : q.Fetching backend) (hkept : q.Kept codec) (h : q.Manned)
    (hact : q.act codec backend a = some q') (ha : q.SweepsUnattended a) (hcalm : q.Calm backend a)
    (hid : id < q.jobs.nextId) : Change (q.view id) (q'.view id) := by
  have he := effect_act hfetching hact
  cases he with
  | failed => exact .same _
  | fetching => exact .same _
  | enqueue now jobType payload delay retries runAt hfree =>
    have hrow : (q.jobs.insert jobType payload runAt (maxAttemptsOf retries)).get? id =
        q.jobs.get? id := Jobs.get?_insert.trans (if_neg (Nat.ne_of_lt hid))
    have hview : Queue.view { q with
        jobs := q.jobs.insert jobType payload runAt (maxAttemptsOf retries)
        enqueued := q.enqueued ++ [(q.jobs.nextId, retries)] } id = q.view id :=
      Prod.ext hrow rfl
    exact hview ▸ .same _
  | claim i o rows fetches hopen hnodup hrows =>
    -- every payload is read, so that each job that is claimed is handed out
    have hreadable : (rows.all fun r => codec.parses r.payload) = true :=
      List.all_eq_true.mpr fun r hr => hkept.readable r.id r (hrows r hr).1
    rw [Queue.view, Queue.view, Queue.attended_append, get?_markRunning, hreadable, if_pos rfl]
    by_cases hmem : id ∈ rows.map JobRow.id
    · obtain ⟨r, hr, rfl⟩ := List.mem_map.mp hmem
      obtain ⟨hget, hdue⟩ := hrows r hr
      have hpending := (JobRow.isDue_iff.mp hdue).2.1
      have hnobody := h.attended_eq_false hget (by rw [hpending]; decide)
      have hnew : ((rows.map (Task.spawn i o.call.jobType .waiting)).any fun t =>
          decide (t.id = r.id) && decide t.Live) = true :=
        List.any_eq_true.mpr ⟨_, List.mem_map_of_mem hr, by simp [Task.Live, Task.spawn, Task.id,
          JobRow.fetched, JobRow.jobMeta]⟩
      rw [hget, hnobody, hnew, Option.map_some, if_pos hmem]
      exact .claimed r _ _ hpending
    · have hnone : ((rows.map (Task.spawn i o.call.jobType .waiting)).any fun t =>
          decide (t.id = id) && decide t.Live) = false := by
        refine List.any_eq_false.mpr fun t ht hboth => ?_
        obtain ⟨r, hr, rfl⟩ := List.mem_map.mp ht
        rw [Bool.and_eq_true, decide_eq_true_eq] at hboth
        exact hmem (hboth.1 ▸ List.mem_map_of_mem (f := JobRow.id) hr)
      have hrow : ((q.jobs.get? id).map fun r =>
          if id ∈ rows.map JobRow.id then r.markRunning o.call.lockBy o.call.now else r) =
            q.jobs.get? id := by
        cases q.jobs.get? id with
        | none => rfl
        | some r => rw [Option.map_some, if_neg hmem]
      rw [hnone, Bool.or_false, hrow]
      exact .same _
  | handle k t ht hstage =>
    have hrunning : (t.handle codec).stage = .running := rfl
    have hlive : (t.handle codec).Live ↔ t.Live := by
      rw [Task.Live, Task.Live, hstage, hrunning]
      exact iff_of_true (by decide) (by decide)
    rw [Queue.view, Queue.view, attended_set ht (t.id_handle codec) hlive]
    exact .same _
  | finish k now outcome options t jobs ht hstage hfree hlocked hwrites =>
    have hlive : t.Live := by
      rw [Task.Live, hstage]
      decide
    have hjobs : jobs = (backend.finish now t.job.jobMeta outcome options q.jobs).1 := by
      simp only [Queue.act, Queue.finish, ht] at hact
      split at hact
      · exact (congrArg Queue.jobs (Option.some_inj.mp hact)).symm
      · cases hact
    obtain ⟨f, hf, hcompletes, heq⟩ :=
      finish_completes (hcalm.2 k now outcome options t rfl ht)
    rw [Queue.view, Queue.view, attended_finish h ht hlive, hjobs, heq, Jobs.get?_update]
    split
    · next hid =>
      obtain ⟨r, hr, hrunning, hmeta⟩ := h.own k t ht hlive
      have hattended : q.attended id = true := Queue.attended_iff.mpr ⟨k, t, ht, hid.symm, hlive⟩
      have hrid : r.id = t.job.jobMeta.id := Table.key_of_get? hr
      rw [hattended, hid, hr, Option.map_some, if_pos (decide_eq_true hrid)]
      exact .completed r outcome f hrunning (hmeta ▸ hcompletes)
    · next hid =>
      have hrow : ((q.jobs.get? id).map fun r =>
          if decide (r.id = t.job.jobMeta.id) = true then f r else r) = q.jobs.get? id := by
        cases hr : q.jobs.get? id with
        | none => rfl
        | some r =>
          have hne : r.id ≠ t.job.jobMeta.id := by
            rw [show r.id = id from Table.key_of_get? hr]
            exact hid
          rw [Option.map_some, if_neg (by simpa using hne)]
      rw [hrow]
      exact .same _
  | lose k t ht =>
    have hended := hcalm.1 k t rfl ht
    rw [Queue.view, Queue.view,
      attended_set ht t.id_finish (iff_of_false t.not_live_finish hended)]
    exact .same _
  | sweep now options t ht hfree =>
    rw [Queue.view, Queue.view, Jobs.get?_update]
    show Change (q.jobs.get? id, q.attended id) (_, q.attended id)
    cases hr : q.jobs.get? id with
    | none => exact .same _
    | some r =>
      rw [Option.map_some]
      split
      · next horphaned =>
        rw [ha now options t rfl ht id r hr horphaned]
        exact .reopened r (JobRow.running_of_isOrphaned horphaned)
      · exact .same _
  | deleteBatch now retentionDays pick hfree hpick =>
    rw [Queue.view, Queue.view, Jobs.get?_delete]
    show Change (q.jobs.get? id, q.attended id) (_, q.attended id)
    split
    · next hmem =>
      obtain ⟨r, hr, hfinished⟩ := hpick id hmem
      have hnobody := h.attended_eq_false hr fun hrunning => by
        rw [hrunning] at hfinished
        cases hfinished
      rw [hr, hnobody]
      exact .deleted r hfinished
    · exact .same _

end Changes

/-! ## What is left to be done about a job -/

/-- Two for each attempt that a job has left, and one if it has to be fetched first. -/
def weightOf : Option JobRow × Bool → ℤ
  | (none, _) => 0
  | (some r, attended) =>
    if r.status.finished then 0
    else 2 * max 1 (r.maxAttempts - r.attempts) + if attended then 0 else 1

def Queue.weight (q : Queue) (id : ℕ) : ℤ := weightOf (q.view id)

theorem weightOf_nonneg (x : Option JobRow × Bool) : 0 ≤ weightOf x := by
  rcases x with ⟨_ | r, attended⟩
  · exact le_refl _
  · have := le_max_left 1 (r.maxAttempts - r.attempts)
    simp only [weightOf]
    split_ifs <;> omega

section Weights

variable {x y : Option JobRow × Bool} {r r' : JobRow}

/-- An attempt that ends is used up. -/
theorem weightOf_completed {outcome : Backend.Outcome} {f : JobRow → JobRow}
    (h : r.status = .running) (hf : Completes r.jobMeta outcome f) :
    weightOf (some (f r), false) < weightOf (some r, true) := by
  have hone := le_max_left 1 (r.maxAttempts - r.attempts)
  have hbefore : weightOf (some r, true) = 2 * max 1 (r.maxAttempts - r.attempts) := by
    rw [weightOf, h]
    simp [JobStatus.finished]
  rw [hbefore]
  cases hf with
  | done now =>
    rw [weightOf, if_pos (by rfl)]
    omega
  | retry runAt e hretry =>
    have hleft : r.attempts + 1 < r.maxAttempts := hretry
    have hafter : weightOf (some (r.scheduleRetry (r.jobMeta.attempts + 1) runAt e), false) =
        2 * max 1 (r.maxAttempts - (r.attempts + 1)) + 1 := rfl
    rw [hafter, max_eq_right (by omega), max_eq_right (by omega)]
    omega
  | failed now e hfailed =>
    rw [weightOf, if_pos (by rfl)]
    omega

/-- No change leaves more to be done. -/
theorem Change.weight_le (h : Change x y) : weightOf y ≤ weightOf x := by
  cases h with
  | same => exact le_refl _
  | claimed r lockBy now hpending =>
    have hafter : weightOf (some (r.markRunning lockBy now), true) =
        2 * max 1 (r.maxAttempts - r.attempts) + 0 := rfl
    rw [hafter, weightOf, hpending]
    simp [JobStatus.finished]
  | completed r outcome f hrunning hf => exact (weightOf_completed hrunning hf).le
  | reopened r hrunning =>
    have hafter : weightOf (some r.reenqueue, false) =
        2 * max 1 (r.maxAttempts - r.attempts) + 1 := rfl
    rw [hafter, weightOf, hrunning]
    simp [JobStatus.finished]
  | deleted r hfinished => exact weightOf_nonneg _

/-- A pending job that is fetched has less left. -/
theorem Change.weight_lt (h : Change x y) (hx : x.1 = some r) (hpending : r.status = .pending)
    (hy : y.1 = some r') (hrunning : r'.status = .running) : weightOf y < weightOf x := by
  cases h with
  | same x =>
    rw [hx] at hy
    cases hy
    rw [hpending] at hrunning
    cases hrunning
  | claimed s lockBy now hs =>
    have hafter : weightOf (some (s.markRunning lockBy now), true) =
        2 * max 1 (s.maxAttempts - s.attempts) + 0 := rfl
    rw [hafter, weightOf, hs]
    simp [JobStatus.finished]
  | completed s outcome f hs hf => exact weightOf_completed hs hf
  | reopened s hs =>
    cases hx
    rw [hpending] at hs
    cases hs
  | deleted => cases hy

/-- A change that leaves as much to be done as before is none, or it puts a job back, or it deletes
a job that is finished. -/
theorem Change.of_weight_eq (h : Change x y) (heq : weightOf y = weightOf x) :
    y = x ∨ (∃ r, x = (some r, false) ∧ r.status = .running ∧ y = (some r.reenqueue, false)) ∨
      ∃ r, x = (some r, false) ∧ r.status.finished = true ∧ y = (none, false) := by
  cases h with
  | same => exact .inl rfl
  | claimed s lockBy now hs =>
    have hless := (Change.claimed s lockBy now hs).weight_lt rfl hs rfl rfl
    exact absurd heq hless.ne
  | completed s outcome f hs hf => exact absurd heq (weightOf_completed hs hf).ne
  | reopened s hs => exact .inr (.inl ⟨s, rfl, hs, rfl⟩)
  | deleted s hs => exact .inr (.inr ⟨s, rfl, hs, rfl⟩)

end Weights

end Slab.JobQueue
