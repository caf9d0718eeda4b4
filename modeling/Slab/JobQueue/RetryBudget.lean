import Slab.JobQueue.Effect

/-!
# How often the handler of a job is called

A job of `RETRIES = n` is to be executed at most `n + 1` times. The attempts are counted where a
failure is written, while the handler is called after the fetch; the orphan sweep puts a job back
without counting anything. The bound holds along every run in which each job that the sweep puts
back has no task at work and has had every call of its handler counted.

## Main definitions

- `Account` — what concerns one job: its row and its tasks
- `Account.Step` — what one step can do to an account
- `Account.Fair` — the invariant: calls, counted attempts and the limit
- `Queue.SweepsCounted` — the condition on the orphan sweep

## Main results

- `starts_le_of_run` — the bound
- `started_again` — a handler that crashes its process is called once more than that
-/

namespace Slab.JobQueue

open Txn

/-! ## Accounts -/

/-- The row of a job and the tasks that fetches have made for it, in order. -/
structure Account where
  row : Option JobRow
  tasks : List Task

namespace Account

/-- The tasks that have not ended. -/
def atWork (tasks : List Task) : ℕ := tasks.countP fun t => t.stage ≠ .ended

/-- The tasks that have called the handler or are about to. -/
def calls (tasks : List Task) : ℕ := tasks.countP fun t => t.started || t.stage = .waiting

/-- What one step does to an account. -/
inductive Step (codec : Codec) : Account → Account → Prop where
  | same (a : Account) : Step codec a a
  | created (id : ℕ) (jobType payload : String) (runAt maxAttempts : ℤ) :
      Step codec ⟨none, []⟩ ⟨some (.queued id jobType payload runAt maxAttempts), []⟩
  | claimed (i : ℕ) (jobType lockBy : String) (now : ℤ) (stage : Stage) (r : JobRow)
      (tasks : List Task) (hpending : r.status = .pending) (hstage : stage ≠ .running) :
      Step codec ⟨some r, tasks⟩
        ⟨some (r.markRunning lockBy now), tasks ++ [Task.spawn i jobType stage r]⟩
  | handled (row : Option JobRow) (before after : List Task) (t : Task)
      (hstage : t.stage = .waiting) :
      Step codec ⟨row, before ++ t :: after⟩ ⟨row, before ++ t.handle codec :: after⟩
  | completed (r : JobRow) (before after : List Task) (t : Task) (outcome : Backend.Outcome)
      (f : JobRow → JobRow) (hstage : t.stage = .running)
      (hf : Completes t.job.jobMeta outcome f) :
      Step codec ⟨some r, before ++ t :: after⟩ ⟨some (f r), before ++ t.finish :: after⟩
  | ended (row : Option JobRow) (before after : List Task) (t : Task) :
      Step codec ⟨row, before ++ t :: after⟩ ⟨row, before ++ t.finish :: after⟩
  | reopened (r : JobRow) (tasks : List Task) (hrunning : r.status = .running)
      (hended : atWork tasks = 0) (hcounted : (calls tasks : ℤ) ≤ r.attempts) :
      Step codec ⟨some r, tasks⟩ ⟨some r.reenqueue, tasks⟩
  | deleted (r : JobRow) (tasks : List Task) (hfinished : r.status.finished = true) :
      Step codec ⟨some r, tasks⟩ ⟨none, tasks⟩

/-- A job that is not finished has not used up its attempts. -/
def Open (r : JobRow) : Prop := 0 ≤ r.attempts ∧ (r.attempts = 0 ∨ r.attempts < r.maxAttempts)

/-- How the tasks of a job relate to its row: while it is pending, no task is at work and every
call has been counted; while it is running, one task at most is at work, which read the row as it
is, and one call at most has not been counted. -/
def Fair : Account → Prop
  | ⟨none, tasks⟩ => atWork tasks = 0
  | ⟨some r, tasks⟩ =>
    match r.status with
    | .pending => atWork tasks = 0 ∧ (calls tasks : ℤ) ≤ r.attempts ∧ Open r
    | .running => atWork tasks ≤ 1 ∧ (calls tasks : ℤ) ≤ r.attempts + 1 ∧ Open r ∧
        ∀ t ∈ tasks, t.stage ≠ .ended → t.job.jobMeta = r.jobMeta
    | .done => atWork tasks = 0 ∧ (calls tasks : ℤ) ≤ max 1 r.maxAttempts
    | .failed => atWork tasks = 0 ∧ (calls tasks : ℤ) ≤ max 1 r.maxAttempts

section Counts

variable {codec : Codec} {before after : List Task} {t u : Task}

theorem atWork_middle : atWork (before ++ t :: after) =
    atWork before + atWork after + if t.stage = .ended then 0 else 1 := by
  simp only [atWork, List.countP_append, List.countP_cons]
  by_cases h : t.stage = .ended
  · simp [h]
  · simp [h]
    omega

theorem calls_middle : calls (before ++ t :: after) =
    calls before + calls after + if t.started || t.stage = .waiting then 1 else 0 := by
  simp only [calls, List.countP_append, List.countP_cons]
  omega

/-- A handler that is called was about to be. -/
theorem calls_handle (h : t.stage = .waiting) :
    calls (before ++ t.handle codec :: after) ≤ calls (before ++ t :: after) := by
  have hcalls : (t.started || decide (t.stage = .waiting)) = true := by simp [h]
  rw [calls_middle, calls_middle, if_pos hcalls]
  split <;> omega

theorem atWork_handle (h : t.stage = .waiting) :
    atWork (before ++ t.handle codec :: after) = atWork (before ++ t :: after) := by
  have hhandled : (t.handle codec).stage = .running := rfl
  rw [atWork_middle, atWork_middle, h, hhandled]
  rfl

theorem calls_finish :
    calls (before ++ t.finish :: after) ≤ calls (before ++ t :: after) := by
  have hfinish : (t.finish.started || decide (t.finish.stage = .waiting)) = t.started := by
    simp [Task.finish]
  rw [calls_middle, calls_middle, hfinish]
  cases t.started <;> simp

theorem atWork_finish :
    atWork (before ++ t.finish :: after) ≤ atWork (before ++ t :: after) := by
  rw [atWork_middle, atWork_middle, if_pos (show t.finish.stage = .ended from rfl)]
  omega

/-- The last task at work ends. -/
theorem atWork_finish_of_le (h : atWork (before ++ t :: after) ≤ 1) (ht : t.stage ≠ .ended) :
    atWork (before ++ t.finish :: after) = 0 := by
  rw [atWork_middle, if_neg ht] at h
  rw [atWork_middle, if_pos (show t.finish.stage = .ended from rfl)]
  omega

theorem atWork_pos (ht : t.stage ≠ .ended) : 0 < atWork (before ++ t :: after) := by
  rw [atWork_middle, if_neg ht]
  omega

theorem atWork_eq_zero {tasks : List Task} :
    atWork tasks = 0 ↔ ∀ t ∈ tasks, t.stage = .ended := by
  simp [atWork, List.countP_eq_zero]

/-- Where no task is at work, the calls are those that have been made. -/
theorem calls_eq_started {tasks : List Task} (h : ∀ t ∈ tasks, t.stage = .ended) :
    calls tasks = tasks.countP Task.started := by
  refine List.countP_congr fun t ht => ?_
  simp [h t ht]

end Counts

/-! ## The invariant of an account -/

section Fair

variable {codec : Codec} {r : JobRow} {tasks tasks' : List Task}

theorem fair_pending (h : r.status = .pending) : Fair ⟨some r, tasks⟩ ↔
    atWork tasks = 0 ∧ (calls tasks : ℤ) ≤ r.attempts ∧ Open r := by
  simp only [Fair, h]

theorem fair_running (h : r.status = .running) : Fair ⟨some r, tasks⟩ ↔
    atWork tasks ≤ 1 ∧ (calls tasks : ℤ) ≤ r.attempts + 1 ∧ Open r ∧
      ∀ t ∈ tasks, t.stage ≠ .ended → t.job.jobMeta = r.jobMeta := by
  simp only [Fair, h]

theorem fair_finished (h : r.status.finished = true) : Fair ⟨some r, tasks⟩ ↔
    atWork tasks = 0 ∧ (calls tasks : ℤ) ≤ max 1 r.maxAttempts := by
  cases hstatus : r.status with
  | pending => simp [hstatus, JobStatus.finished] at h
  | running => simp [hstatus, JobStatus.finished] at h
  | done => simp only [Fair, hstatus]
  | failed => simp only [Fair, hstatus]

/-- A job whose task is at work is running. -/
theorem running_of_atWork (h : Fair ⟨some r, tasks⟩) (hpos : 0 < atWork tasks) :
    r.status = .running := by
  cases hstatus : r.status with
  | running => rfl
  | _ =>
    simp only [Fair, hstatus] at h
    omega

/-- The invariant survives where fewer tasks are at work and no more calls are made, if those
still at work are tasks that were. -/
theorem Fair.of_le {row : Option JobRow} (h : Fair ⟨row, tasks⟩)
    (hwork : atWork tasks' ≤ atWork tasks) (hcalls : calls tasks' ≤ calls tasks)
    (htasks : ∀ t' ∈ tasks', t'.stage ≠ .ended →
      ∃ t ∈ tasks, t.stage ≠ .ended ∧ t.job.jobMeta = t'.job.jobMeta) : Fair ⟨row, tasks'⟩ := by
  cases row with
  | none =>
    have h : atWork tasks = 0 := h
    show atWork tasks' = 0
    omega
  | some r =>
    cases hstatus : r.status with
    | pending =>
      obtain ⟨hzero, hcounted, hopen⟩ := (fair_pending hstatus).mp h
      exact (fair_pending hstatus).mpr ⟨by omega, by omega, hopen⟩
    | running =>
      obtain ⟨hone, hcounted, hopen, hmeta⟩ := (fair_running hstatus).mp h
      refine (fair_running hstatus).mpr ⟨by omega, by omega, hopen, fun t' ht' hstage => ?_⟩
      obtain ⟨t, ht, htstage, hsame⟩ := htasks t' ht' hstage
      exact hsame ▸ hmeta t ht htstage
    | done =>
      have hfinished : r.status.finished = true := by rw [hstatus]; rfl
      obtain ⟨hzero, hmax⟩ := (fair_finished hfinished).mp h
      exact (fair_finished hfinished).mpr ⟨by omega, by omega⟩
    | failed =>
      have hfinished : r.status.finished = true := by rw [hstatus]; rfl
      obtain ⟨hzero, hmax⟩ := (fair_finished hfinished).mp h
      exact (fair_finished hfinished).mpr ⟨by omega, by omega⟩

/-- An update with which the only task at work ends counts its call, or the job is finished. -/
theorem fair_completed {before after : List Task} {t : Task} {outcome : Backend.Outcome}
    {f : JobRow → JobRow} (h : Fair ⟨some r, before ++ t :: after⟩) (hstage : t.stage = .running)
    (hf : Completes t.job.jobMeta outcome f) :
    Fair ⟨some (f r), before ++ t.finish :: after⟩ := by
  have hwork : t.stage ≠ .ended := by
    rw [hstage]
    nofun
  have hrunning := running_of_atWork h (atWork_pos hwork)
  obtain ⟨hone, hcounted, ⟨hnonneg, hopen⟩, hmeta⟩ := (fair_running hrunning).mp h
  have hzero := atWork_finish_of_le hone hwork
  have hcalls : calls (before ++ t.finish :: after) ≤ calls (before ++ t :: after) := calls_finish
  have hread := hmeta t (by simp) hwork
  have hattempts : t.job.jobMeta.attempts = r.attempts := by rw [hread]; rfl
  have hmax : t.job.jobMeta.maxAttempts = r.maxAttempts := by rw [hread]; rfl
  cases hf with
  | done now =>
    refine (fair_finished rfl).mpr ⟨hzero, ?_⟩
    show _ ≤ max 1 r.maxAttempts
    omega
  | retry runAt e hlt =>
    refine (fair_pending rfl).mpr ⟨hzero, ?_, ?_, Or.inr ?_⟩
    · show _ ≤ t.job.jobMeta.attempts + 1
      omega
    · show 0 ≤ t.job.jobMeta.attempts + 1
      omega
    · show t.job.jobMeta.attempts + 1 < r.maxAttempts
      omega
  | failed now e hle =>
    refine (fair_finished rfl).mpr ⟨hzero, ?_⟩
    show _ ≤ max 1 r.maxAttempts
    omega

/-- Every step of an account keeps the invariant. -/
theorem fair_step {a b : Account} (h : a.Fair) (hstep : Step codec a b) : b.Fair := by
  cases hstep with
  | same => exact h
  | created id jobType payload runAt maxAttempts =>
    exact (fair_pending rfl).mpr ⟨rfl, le_refl _, le_refl _, Or.inl rfl⟩
  | claimed i jobType lockBy now stage r tasks hpending hstage =>
    obtain ⟨hzero, hcounted, hopen⟩ := (fair_pending hpending).mp h
    have hone : atWork (tasks ++ [Task.spawn i jobType stage r]) ≤ 1 := by
      rw [atWork_middle, hzero]
      split <;> simp [atWork]
    have hcalls : calls (tasks ++ [Task.spawn i jobType stage r]) ≤ calls tasks + 1 := by
      rw [calls_middle]
      split <;> simp [calls]
    refine (fair_running rfl).mpr ⟨hone, ?_, hopen, ?_⟩
    · show _ ≤ r.attempts + 1
      omega
    · intro t ht hwork
      rcases List.mem_append.mp ht with ht | ht
      · exact absurd (atWork_eq_zero.mp hzero t ht) hwork
      · rw [List.mem_singleton.mp ht]
        rfl
  | handled row before after t hstage =>
    refine h.of_le (le_of_eq (atWork_handle hstage)) (calls_handle hstage) fun u hu hwork => ?_
    rcases List.mem_append.mp hu with hu | hu
    · exact ⟨u, List.mem_append_left _ hu, hwork, rfl⟩
    · rcases List.mem_cons.mp hu with rfl | hu
      · exact ⟨t, by simp, by rw [hstage]; nofun, rfl⟩
      · exact ⟨u, by simp [hu], hwork, rfl⟩
  | completed r before after t outcome f hstage hf => exact fair_completed h hstage hf
  | ended row before after t =>
    refine h.of_le atWork_finish calls_finish fun u hu hwork => ?_
    rcases List.mem_append.mp hu with hu | hu
    · exact ⟨u, List.mem_append_left _ hu, hwork, rfl⟩
    · rcases List.mem_cons.mp hu with rfl | hu
      · exact absurd rfl hwork
      · exact ⟨u, by simp [hu], hwork, rfl⟩
  | reopened r tasks hrunning hended hcounted =>
    obtain ⟨-, -, hopen, -⟩ := (fair_running hrunning).mp h
    exact (fair_pending rfl).mpr ⟨hended, hcounted, hopen⟩
  | deleted r tasks hfinished => exact ((fair_finished hfinished).mp h).1

/-- Whatever the row is, the calls stay within the limit. -/
theorem calls_le_of_fair (h : Fair ⟨some r, tasks⟩) :
    (calls tasks : ℤ) ≤ max 1 r.maxAttempts := by
  cases hstatus : r.status with
  | pending =>
    obtain ⟨-, hcounted, hopen⟩ := (fair_pending hstatus).mp h
    rcases hopen with ⟨hnonneg, hzero | hlt⟩ <;> omega
  | running =>
    obtain ⟨-, hcounted, ⟨hnonneg, hopen⟩, -⟩ := (fair_running hstatus).mp h
    omega
  | done =>
    exact ((fair_finished (by rw [hstatus]; rfl)).mp h).2
  | failed =>
    exact ((fair_finished (by rw [hstatus]; rfl)).mp h).2

/-- No step changes the limit of a job, and no calls are made for a job that is gone. -/
theorem Step.limit {a b : Account} (hstep : Step codec a b) {r : JobRow} (hr : a.row = some r) :
    (∃ r', b.row = some r' ∧ r'.maxAttempts = r.maxAttempts) ∨
      b.row = none ∧ b.tasks = a.tasks := by
  cases hstep with
  | same => exact .inl ⟨r, hr, rfl⟩
  | created => cases hr
  | claimed => exact .inl ⟨_, rfl, by cases hr; rfl⟩
  | handled => exact .inl ⟨r, hr, rfl⟩
  | completed s before after t outcome f hstage hf =>
    cases hr
    exact .inl ⟨_, rfl, by cases hf <;> rfl⟩
  | ended => exact .inl ⟨r, hr, rfl⟩
  | reopened => exact .inl ⟨_, rfl, by cases hr; rfl⟩
  | deleted => exact .inr ⟨rfl, rfl⟩

theorem Step.calls_le_of_gone {a b : Account} (hstep : Step codec a b) (ha : a.row = none)
    (hb : b.row = none) : calls b.tasks ≤ calls a.tasks := by
  cases hstep with
  | same => exact le_refl _
  | handled row before after t hstage => exact calls_handle hstage
  | ended row before after t => exact calls_finish
  | deleted => cases ha
  | _ => cases hb

end Fair

end Account

/-! ## The accounts of a queue -/

namespace Queue

def tasksOf (q : Queue) (id : ℕ) : List Task := q.tasks.filter fun t => t.id = id

def account (q : Queue) (id : ℕ) : Account := ⟨q.jobs.get? id, q.tasksOf id⟩

/-- A sweep puts back only jobs that no task is at work on and whose handler has been called no
more often than their attempts count. -/
def SweepsCounted (q : Queue) (a : Action) : Prop :=
  ∀ now options t, a = .sweep now options → Backend.olderThan now options = .ok t →
    ∀ id r, q.jobs.get? id = some r → r.isOrphaned t = true →
      (∀ u ∈ q.tasks, u.id = id → u.stage = .ended) ∧ (q.starts id : ℤ) ≤ r.attempts

/-- The invariant: every account is fair, and the calls for a job that has been enqueued are
limited by its row, or by the same limit after the row has gone. -/
structure Accounted (q : Queue) : Prop where
  known : ∀ t ∈ q.tasks, t.id < q.jobs.nextId
  fair : ∀ id, (q.account id).Fair
  limited : ∀ e ∈ q.enqueued, e.1 < q.jobs.nextId ∧
    ((∃ r, q.jobs.get? e.1 = some r ∧ r.maxAttempts = maxAttemptsOf e.2) ∨
      q.jobs.get? e.1 = none ∧
        (Account.calls (q.tasksOf e.1) : ℤ) ≤ max 1 (maxAttemptsOf e.2))

theorem accounted_init : init.Accounted where
  known _ h := absurd h List.not_mem_nil
  fair _ := rfl
  limited _ h := absurd h List.not_mem_nil

theorem tasksOf_eq_nil {q : Queue} (h : ∀ t ∈ q.tasks, t.id < q.jobs.nextId) :
    q.tasksOf q.jobs.nextId = [] := by
  refine List.filter_eq_nil_iff.mpr fun t ht hid => ?_
  exact Nat.ne_of_lt (h t ht) (of_decide_eq_true hid)

theorem starts_eq_countP (q : Queue) (id : ℕ) :
    q.starts id = (q.tasksOf id).countP Task.started := by
  rw [starts, tasksOf, List.countP_filter]
  refine List.countP_congr fun t _ => ?_
  simp [and_comm]

/-- A handler that has been called is among the calls. -/
theorem starts_le_calls (q : Queue) (id : ℕ) : q.starts id ≤ Account.calls (q.tasksOf id) := by
  rw [starts_eq_countP]
  exact List.countP_mono_left fun t _ h => by simp [h]

end Queue

section Step

variable {codec : Codec} {backend : Backend} {q q' : Queue} {a : Action}

/-- A task that moves on does so in the account of its job, and no other account changes. -/
theorem filter_set_cases {l : List Task} {k : ℕ} {t u : Task} (ht : l[k]? = some t)
    (hid : u.id = t.id) (id : ℕ) :
    (t.id = id ∧ ∃ before after, (l.filter fun t => t.id = id) = before ++ t :: after ∧
      ((l.set k u).filter fun t => t.id = id) = before ++ u :: after) ∨
    t.id ≠ id ∧ ((l.set k u).filter fun t => t.id = id) = l.filter fun t => t.id = id := by
  obtain ⟨hlt, hget⟩ := List.getElem?_eq_some_iff.mp ht
  have hbefore : l = l.take k ++ t :: l.drop (k + 1) := by
    rw [← hget, List.getElem_cons_drop, List.take_append_drop]
  have hafter : l.set k u = l.take k ++ u :: l.drop (k + 1) :=
    List.set_eq_take_append_cons_drop.trans (if_pos hlt)
  have hfilter : (l.filter fun t => t.id = id) = _ :=
    congrArg (List.filter fun t => t.id = id) hbefore
  rw [hafter, hfilter, List.filter_append, List.filter_append, List.filter_cons, List.filter_cons,
    hid]
  by_cases h : t.id = id
  · exact .inl ⟨h, _, _, by rw [if_pos (decide_eq_true h)], by rw [if_pos (decide_eq_true h)]⟩
  · refine .inr ⟨h, ?_⟩
    have hfalse : ¬decide (t.id = id) = true := by simpa using h
    rw [if_neg hfalse, if_neg hfalse]

/-- A task that ends without writing. -/
theorem account_ended {k : ℕ} {t : Task} {row : Option JobRow} (ht : q.tasks[k]? = some t)
    (id : ℕ) : Account.Step codec ⟨row, q.tasksOf id⟩
      ⟨row, (q.tasks.set k t.finish).filter fun t => t.id = id⟩ := by
  rw [Queue.tasksOf]
  rcases filter_set_cases (u := t.finish) ht rfl id with ⟨-, before, after, hb, hn⟩ | ⟨-, hn⟩
  · rw [hb, hn]
    exact .ended row before after t
  · rw [hn]
    exact .same _

/-- A task that ends and writes the outcome. -/
theorem account_completed {k : ℕ} {t : Task} {outcome : Backend.Outcome} {f : JobRow → JobRow}
    {hf : ∀ r, (f r).id = r.id} (ht : q.tasks[k]? = some t) (hstage : t.stage = .running)
    (hcompletes : Completes t.job.jobMeta outcome f) (id : ℕ) :
    Account.Step codec (q.account id)
      ⟨(q.jobs.update (fun r => r.id = t.job.jobMeta.id) f hf).get? id,
        (q.tasks.set k t.finish).filter fun t => t.id = id⟩ := by
  rw [Jobs.get?_update, Queue.account]
  cases hget : q.jobs.get? id with
  | none => exact account_ended ht id
  | some r =>
    have hrid : r.id = id := Table.key_of_get? hget
    rw [Option.map_some, Queue.tasksOf]
    rcases filter_set_cases (u := t.finish) ht rfl id with ⟨hid, before, after, hb, hn⟩ | ⟨hid, hn⟩
    · have hself : r.id = t.job.jobMeta.id := hrid.trans hid.symm
      rw [hb, hn, if_pos (decide_eq_true hself)]
      exact .completed r before after t outcome f hstage hcompletes
    · have hother : ¬r.id = t.job.jobMeta.id := fun h => hid (h.symm.trans hrid)
      rw [hn, if_neg (by simpa using hother)]
      exact .same _

/-- What a step does to the account of a job. -/
theorem Effect.account (h : ∀ t ∈ q.tasks, t.id < q.jobs.nextId) (he : Effect codec q a q')
    (ha : q.SweepsCounted a) (id : ℕ) :
    Account.Step codec (q.account id) (q'.account id) := by
  cases he with
  | failed => exact .same _
  | fetching => exact .same _
  | enqueue now jobType payload delay retries runAt hfree =>
    show Account.Step codec _ ⟨(q.jobs.insert jobType payload runAt _).get? id, q.tasksOf id⟩
    rw [Jobs.get?_insert, Queue.account]
    split
    · next hid =>
      rw [hid, Jobs.get?_nextId, Queue.tasksOf_eq_nil h]
      exact .created ..
    · exact .same _
  | claim i o rows fetches hopen hnodup hrows =>
    show Account.Step codec _ ⟨(Pg.markRunning o.call (rows.map JobRow.id) q.jobs).get? id,
      (q.tasks ++ rows.map _).filter fun t => t.id = id⟩
    rw [get?_markRunning, List.filter_append, Queue.account]
    by_cases hid : id ∈ rows.map JobRow.id
    · obtain ⟨r, hr, rfl⟩ := List.mem_map.mp hid
      obtain ⟨hget, hdue⟩ := hrows r hr
      rw [filter_spawn hnodup hr, hget, Option.map_some, if_pos hid]
      refine .claimed i o.call.jobType o.call.lockBy o.call.now _ r _
        (JobRow.isDue_iff.mp hdue).2.1 ?_
      split <;> nofun
    · rw [filter_spawn_of_not_mem hid, List.append_nil]
      cases hget : q.jobs.get? id with
      | none => exact .same _
      | some r =>
        rw [Option.map_some, if_neg hid]
        exact .same _
  | handle k t ht hstage =>
    show Account.Step codec ⟨_, q.tasks.filter _⟩
      ⟨q.jobs.get? id, (q.tasks.set k (t.handle codec)).filter fun t => t.id = id⟩
    rcases filter_set_cases (u := t.handle codec) ht rfl id with
      ⟨-, before, after, hb, hn⟩ | ⟨-, hn⟩
    · rw [hb, hn]
      exact .handled _ before after t hstage
    · rw [hn]
      exact .same _
  | finish k now outcome options t jobs ht hstage hfree hlocked hwrites =>
    rcases hwrites with rfl | ⟨f, hf, hcompletes, rfl⟩
    · exact account_ended ht id
    · exact account_completed ht hstage hcompletes id
  | lose k t ht => exact account_ended ht id
  | sweep now options t ht hfree =>
    show Account.Step codec _
      ⟨(q.jobs.update (JobRow.isOrphaned t) JobRow.reenqueue _).get? id, q.tasksOf id⟩
    rw [Jobs.get?_update, Queue.account]
    cases hget : q.jobs.get? id with
    | none => exact .same _
    | some r =>
      rw [Option.map_some]
      split
      · next horphaned =>
        obtain ⟨hended, hcounted⟩ := ha now options t rfl ht id r hget horphaned
        have hended : ∀ u ∈ q.tasksOf id, u.stage = .ended := fun u hu => by
          obtain ⟨hu, hid⟩ := List.mem_filter.mp hu
          exact hended u hu (of_decide_eq_true hid)
        refine .reopened r _ (JobRow.running_of_isOrphaned horphaned)
          (Account.atWork_eq_zero.mpr hended) ?_
        rw [Account.calls_eq_started hended, ← Queue.starts_eq_countP]
        exact hcounted
      · exact .same _
  | deleteBatch now retentionDays pick hfree hpick =>
    show Account.Step codec _ ⟨(q.jobs.delete pick).get? id, q.tasksOf id⟩
    rw [Jobs.get?_delete, Queue.account]
    split
    · next hid =>
      obtain ⟨r, hr, hfinished⟩ := hpick id hid
      rw [hr]
      exact .deleted r _ hfinished
    · exact .same _

/-- The ids of tasks are ids that the table has given out. -/
theorem Effect.known (h : ∀ t ∈ q.tasks, t.id < q.jobs.nextId) (he : Effect codec q a q') :
    ∀ t ∈ q'.tasks, t.id < q'.jobs.nextId := by
  have hset : ∀ (k : ℕ) (t u : Task), q.tasks[k]? = some t → u.id = t.id →
      ∀ s ∈ q.tasks.set k u, s.id < q.jobs.nextId := by
    intro k t u ht hid s hs
    rcases List.mem_or_eq_of_mem_set hs with hs | rfl
    · exact h s hs
    · exact hid ▸ h t (List.mem_of_getElem? ht)
  cases he with
  | enqueue => exact fun t ht => Nat.lt_succ_of_lt (h t ht)
  | claim i o rows fetches hopen hnodup hrows =>
    intro t ht
    rcases List.mem_append.mp ht with ht | ht
    · exact h t ht
    · obtain ⟨r, hr, rfl⟩ := List.mem_map.mp ht
      have hlt : r.id < q.jobs.nextId := Jobs.id_lt_of_get? (hrows r hr).1
      exact hlt
  | handle k t ht hstage => exact hset k t (t.handle codec) ht rfl
  | finish k now outcome options t jobs ht hstage hfree hlocked hwrites =>
    rcases hwrites with rfl | ⟨f, hf, hcompletes, rfl⟩ <;> exact hset k t t.finish ht rfl
  | lose k t ht => exact hset k t t.finish ht rfl
  | _ => exact h

/-- The sequence of the ids only advances. -/
theorem Effect.nextId_le (he : Effect codec q a q') : q.jobs.nextId ≤ q'.jobs.nextId := by
  cases he with
  | enqueue => exact Nat.le_succ _
  | finish k now outcome options t jobs ht hstage hfree hlocked hwrites =>
    rcases hwrites with rfl | ⟨f, hf, hcompletes, rfl⟩ <;> exact le_refl _
  | _ => exact le_refl _

/-- A job that has been enqueued keeps its limit. -/
theorem limited_act (h : q.Accounted) (he : Effect codec q a q') (ha : q.SweepsCounted a) :
    ∀ e ∈ q'.enqueued, e.1 < q'.jobs.nextId ∧
      ((∃ r, q'.jobs.get? e.1 = some r ∧ r.maxAttempts = maxAttemptsOf e.2) ∨
        q'.jobs.get? e.1 = none ∧
          (Account.calls (q'.tasksOf e.1) : ℤ) ≤ max 1 (maxAttemptsOf e.2)) := by
  have hold : ∀ e ∈ q.enqueued, e.1 < q'.jobs.nextId ∧
      ((∃ r, q'.jobs.get? e.1 = some r ∧ r.maxAttempts = maxAttemptsOf e.2) ∨
        q'.jobs.get? e.1 = none ∧
          (Account.calls (q'.tasksOf e.1) : ℤ) ≤ max 1 (maxAttemptsOf e.2)) := by
    intro e hmem
    obtain ⟨hlt, hrow⟩ := h.limited e hmem
    refine ⟨lt_of_lt_of_le hlt he.nextId_le, ?_⟩
    have hstep := he.account h.known ha e.1
    rcases hrow with ⟨r, hr, hmax⟩ | ⟨hnone, hcalls⟩
    · rcases hstep.limit hr with ⟨r', hr', hmax'⟩ | ⟨hnone, htasks⟩
      · exact .inl ⟨r', hr', hmax'.trans hmax⟩
      · have hfair := h.fair e.1
        rw [Queue.account, hr] at hfair
        have hle := Account.calls_le_of_fair hfair
        have htasks : q'.tasksOf e.1 = q.tasksOf e.1 := htasks
        exact .inr ⟨hnone, by rw [htasks, ← hmax]; exact hle⟩
    · have hnone' : q'.jobs.get? e.1 = none := by
        have hrow := he.row e.1
        rw [hnone] at hrow
        generalize q'.jobs.get? e.1 = after at hrow
        cases hrow with
        | same => rfl
        | created now jobType payload delay retries runAt hid =>
          exact absurd hid (Nat.ne_of_lt hlt)
      have hle : Account.calls (q'.tasksOf e.1) ≤ Account.calls (q.tasksOf e.1) :=
        hstep.calls_le_of_gone hnone hnone'
      exact .inr ⟨hnone', by omega⟩
  cases he with
  | enqueue now jobType payload delay retries runAt hfree =>
    intro e hmem
    rcases List.mem_append.mp hmem with hmem | hmem
    · exact hold e hmem
    · rw [List.mem_singleton.mp hmem]
      have hmax : (JobRow.queued q.jobs.nextId jobType payload runAt
          (maxAttemptsOf retries)).maxAttempts = maxAttemptsOf retries := by rw [JobRow.queued]
      exact ⟨Nat.lt_succ_self _, .inl ⟨_, Jobs.get?_insert.trans (if_pos rfl), hmax⟩⟩
  | _ => exact hold

/-- Every step keeps the invariant, if it is no sweep that puts back what is not counted. -/
theorem accounted_act (h : q.Accounted) (he : Effect codec q a q') (ha : q.SweepsCounted a) :
    q'.Accounted where
  known := he.known h.known
  fair id := Account.fair_step (h.fair id) (he.account h.known ha id)
  limited := limited_act h he ha

end Step

theorem maxAttemptsOf_le (retries : ℕ) : maxAttemptsOf retries ≤ retries + 1 := by
  rw [maxAttemptsOf, asI32]
  have hle := Int.emod_nonneg ((retries : ℤ) + 1) (by decide : ((2 ^ 32 : ℕ) : ℤ) ≠ 0)
  rw [Int.bmod_def]
  omega

/-- Along every run in which the sweep puts back only jobs with no task at work and with every
call counted, the handler of a job is called at most `RETRIES + 1` times, and no more often than
`max_attempts` says unless that is no positive number. -/
theorem starts_le_of_run {codec : Codec} {backend : Backend} {q : Queue}
    (hrun : Machine.Run (Queue.act codec backend) Queue.SweepsCounted .init q) :
    ∀ e ∈ q.enqueued, q.starts e.1 ≤ e.2 + 1 ∧
      (q.starts e.1 : ℤ) ≤ max 1 (maxAttemptsOf e.2) ∧
      ∀ r, q.jobs.get? e.1 = some r → r.maxAttempts = maxAttemptsOf e.2 := by
  have hinv : q.Fetching backend ∧ q.Accounted := by
    refine hrun.invariant (P := fun q => q.Fetching backend ∧ q.Accounted)
      ⟨Queue.fetching_init, Queue.accounted_init⟩ ?_
    rintro q a q' ⟨hfetching, haccounted⟩ ha hact
    exact ⟨fetching_act hfetching hact, accounted_act haccounted (effect_act hfetching hact) ha⟩
  intro e hmem
  have hstarts := q.starts_le_calls e.1
  have hmax := maxAttemptsOf_le e.2
  have hcalls : (Account.calls (q.tasksOf e.1) : ℤ) ≤ max 1 (maxAttemptsOf e.2) := by
    rcases (hinv.2.limited e hmem).2 with ⟨r, hr, hlimit⟩ | ⟨-, hcalls⟩
    · have hfair := hinv.2.fair e.1
      rw [Queue.account, hr] at hfair
      exact hlimit ▸ Account.calls_le_of_fair hfair
    · exact hcalls
  refine ⟨by omega, by omega, fun r hr => ?_⟩
  rcases (hinv.2.limited e hmem).2 with ⟨s, hs, hlimit⟩ | ⟨hnone, -⟩
  · rw [hr] at hs
    cases hs
    exact hlimit
  · rw [hr] at hnone
    cases hnone

/-! ## On fixed runs -/

/-- The test that decides `SweepsCounted`. -/
def Queue.sweepsCounted (q : Queue) : Action → Bool
  | .sweep now options =>
    (Backend.olderThan now options).toOption.all fun t => q.jobs.rows.all fun r =>
      !r.isOrphaned t || (q.tasks.all fun u => u.id ≠ r.id || u.stage = .ended) &&
        decide ((q.starts r.id : ℤ) ≤ r.attempts)
  | _ => true

theorem Queue.sweepsCounted_of_test {q : Queue} {a : Action} (h : q.sweepsCounted a = true) :
    q.SweepsCounted a := by
  rintro now options t rfl ht id r hr horphaned
  obtain ⟨hmem, rfl⟩ := Table.get?_eq_some.mp hr
  rw [sweepsCounted, ht] at h
  have hrow := List.all_eq_true.mp h r hmem
  rw [horphaned, Bool.not_true, Bool.false_or, Bool.and_eq_true, decide_eq_true_eq] at hrow
  refine ⟨fun u hu hid => ?_, hrow.2⟩
  simpa [hid] using List.all_eq_true.mp hrow.1 u hu

/-- A job that fails, is put back after its worker crashed before calling the handler again, and
then succeeds: two calls, of four at most. -/
theorem starts_le_of_run_oneCrash :
    ∃ q, Machine.Run (Queue.act .lenient .pg) Queue.SweepsCounted .init q ∧
      (q.starts 1 ≤ 3 + 1 ∧ (q.starts 1 : ℤ) ≤ max 1 (maxAttemptsOf 3) ∧
        ∀ r, q.jobs.get? 1 = some r → r.maxAttempts = maxAttemptsOf 3) ∧ q.starts 1 = 2 := by
  have hplay : (Machine.play (Queue.act .lenient .pg) Queue.sweepsCounted .init
      [.enqueue 50 "report" "1" 0 3, .fetch ⟨"report", 1, "local-worker", 100⟩ [], .commit 0,
        .handle 0, .finish 0 200 (.error "unreachable") .default,
        .fetch ⟨"report", 1, "local-worker", 1300⟩ [], .commit 1, .lose 1,
        .sweep 700000 .default, .fetch ⟨"report", 1, "local-worker", 700001⟩ [], .commit 2,
        .handle 2, .finish 2 700010 (.ok ()) .default]).map
      (fun q => (q.enqueued, q.starts 1)) = some ([(1, 3)], 2) := by
    decide +kernel
  obtain ⟨q, hq, hfacts⟩ := Option.map_eq_some_iff.mp hplay
  obtain ⟨henqueued, hstarts⟩ := Prod.mk.inj hfacts
  have hrun := Machine.Run.of_play (fun _ _ => Queue.sweepsCounted_of_test) .refl hq
  have hmem : (1, 3) ∈ q.enqueued := by
    rw [henqueued]
    exact List.mem_singleton_self _
  obtain ⟨hle, hlimit, hrow⟩ := starts_le_of_run hrun (1, 3) hmem
  exact ⟨q, hrun, ⟨hle, hlimit, hrow⟩, hstarts⟩

/-- A job that is not to be retried: its handler crashes the process, the sweep puts the job back,
and the handler is called again. -/
theorem started_again :
    ¬∀ (codec : Codec) (backend : Backend) (q : Queue),
      Machine.Run (Queue.act codec backend) (fun _ _ => True) .init q →
      ∀ e ∈ q.enqueued, q.starts e.1 ≤ e.2 + 1 := by
  intro h
  have hplay : (Machine.play (Queue.act .lenient .pg) (fun _ _ => true) .init
      [.enqueue 50 "report" "1" 0 0, .fetch ⟨"report", 1, "local-worker", 100⟩ [], .commit 0,
        .handle 0, .lose 0, .sweep 700000 .default,
        .fetch ⟨"report", 1, "local-worker", 700001⟩ [], .commit 1, .handle 1]).map
      (fun q => (q.enqueued, q.starts 1)) = some ([(1, 0)], 2) := by
    decide +kernel
  obtain ⟨q, hq, hfacts⟩ := Option.map_eq_some_iff.mp hplay
  obtain ⟨henqueued, hstarts⟩ := Prod.mk.inj hfacts
  have hle := h .lenient .pg q (.of_play (fun _ _ _ => trivial) .refl hq) (1, 0)
    (by rw [henqueued]; exact List.mem_singleton_self _)
  rw [hstarts] at hle
  exact absurd hle (by decide)

end Slab.JobQueue
