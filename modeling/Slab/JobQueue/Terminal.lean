import Slab.JobQueue.Effect

/-!
# Finished jobs and the count of attempts

A finished job is to keep its status, and `attempts` is never to decrease. The statements with
which a task ends do not ask whether the job is still the task's own. They respect both rules as
long as it is; a task that the orphan sweep has overtaken can break either.

## Main definitions

- `JobRow.Later`, `Jobs.Later` — the two rules, for a row and for the table
- `Queue.overtaken` — the job of a task has been taken from it
- `Queue.LateCompletesWell` — the condition on tasks that have been overtaken

## Main results

- `later_of_run` — both rules along every run that meets the condition
- `harmless_iff` — the condition is exact for each completion
- `finished_reopened` — a finished job that a late failure puts back into the queue
-/

namespace Slab.JobQueue

open Txn

/-- A row after `r`: finished as `r` was if `r` was finished, and with no fewer attempts. -/
def JobRow.Later (r r' : JobRow) : Prop :=
  (r.status.finished = true → r'.status = r.status) ∧ r.attempts ≤ r'.attempts

/-- A table after `v`: the rows with ids that `v` has given out are later rows of `v`. -/
def Jobs.Later (v w : Jobs) : Prop :=
  v.nextId ≤ w.nextId ∧
    ∀ id r', w.get? id = some r' → id < v.nextId → ∃ r, v.get? id = some r ∧ r.Later r'

theorem JobRow.Later.refl (r : JobRow) : r.Later r := ⟨fun _ => rfl, le_refl _⟩

theorem JobRow.Later.trans {r s t : JobRow} (h : r.Later s) (h' : s.Later t) : r.Later t := by
  refine ⟨fun hfinished => ?_, le_trans h.2 h'.2⟩
  have hs := h.1 hfinished
  exact (h'.1 (hs ▸ hfinished)).trans hs

theorem Jobs.Later.refl (v : Jobs) : v.Later v := ⟨le_refl _, fun _ r h _ => ⟨r, h, .refl r⟩⟩

theorem Jobs.Later.trans {u v w : Jobs} (h : u.Later v) (h' : v.Later w) : u.Later w := by
  refine ⟨le_trans h.1 h'.1, fun id r'' hr'' hid => ?_⟩
  obtain ⟨r', hr', hlater'⟩ := h'.2 id r'' hr'' (lt_of_lt_of_le hid h.1)
  obtain ⟨r, hr, hlater⟩ := h.2 id r' hr' hid
  exact ⟨r, hr, hlater.trans hlater'⟩

/-! ## The condition -/

/-- A completion that leaves the status of a finished job and does not lower its attempts. -/
def JobMeta.harmless (m : JobMeta) (outcome : Backend.Outcome) (r : JobRow) : Bool :=
  match outcome with
  | .ok () => decide (r.status ≠ .failed)
  | .error _ => decide (r.attempts ≤ m.attempts + 1) &&
    if m.attempts + 1 < m.maxAttempts then !r.status.finished else decide (r.status ≠ .done)

/-- The update with which a task ends respects the rules just where it is harmless. -/
theorem harmless_iff {m : JobMeta} {outcome : Backend.Outcome} {f : JobRow → JobRow}
    (hf : Completes m outcome f) (r : JobRow) : m.harmless outcome r = true ↔ r.Later (f r) := by
  cases hf with
  | done now =>
    have hattempts : r.attempts ≤ (r.markDone now).attempts := le_refl r.attempts
    cases hr : r.status <;>
      simp [JobMeta.harmless, JobRow.Later, JobRow.markDone, JobStatus.finished, hr]
  | retry runAt e h =>
    cases hr : r.status <;>
      simp [JobMeta.harmless, JobRow.Later, JobRow.scheduleRetry, JobStatus.finished, hr, h]
  | failed now e h =>
    have hlast : ¬m.attempts + 1 < m.maxAttempts := not_lt.mpr h
    cases hr : r.status <;>
      simp [JobMeta.harmless, JobRow.Later, JobRow.markFailed, JobStatus.finished, hr, hlast]

namespace Queue

/-- The job of task `k`, whose row is `r`, is not the task's own any more: it is not running, or
a later fetch has taken it. -/
def overtaken (q : Queue) (k : ℕ) (r : JobRow) : Bool :=
  decide (r.status ≠ .running) || (q.tasks.drop (k + 1)).any fun t => t.id = r.id

/-- A task that completes after it has been overtaken does no harm. -/
def LateCompletesWell (q : Queue) (a : Action) : Prop :=
  ∀ k now outcome options, a = .finish k now outcome options → ∀ t r, q.tasks[k]? = some t →
    q.jobs.get? t.id = some r → q.overtaken k r = true →
      t.job.jobMeta.harmless outcome r = true

/-! ## The claim of a running job -/

/-- What the latest fetch of a job read of it. -/
def lastMeta? (q : Queue) (id : ℕ) : Option JobMeta :=
  ((q.tasks.map fun t => t.job.jobMeta).filter fun m => m.id = id).getLast?

/-- A running job is as its latest fetch read it. -/
def Owned (q : Queue) : Prop :=
  ∀ id r m, q.jobs.get? id = some r → r.status = .running → q.lastMeta? id = some m →
    m = r.jobMeta

theorem owned_init : init.Owned := by
  intro id r m h
  cases h

/-- A task that has not been overtaken is the latest. -/
theorem lastMeta?_of_not_overtaken {q : Queue} {k : ℕ} {t : Task} {r : JobRow}
    (ht : q.tasks[k]? = some t) (hid : t.id = r.id) (h : q.overtaken k r = false) :
    q.lastMeta? r.id = some t.job.jobMeta := by
  obtain ⟨hlt, hget⟩ := List.getElem?_eq_some_iff.mp ht
  have hsplit : q.tasks = q.tasks.take k ++ t :: q.tasks.drop (k + 1) := by
    rw [← hget, List.getElem_cons_drop, List.take_append_drop]
  have hrest : (((q.tasks.drop (k + 1)).map fun t => t.job.jobMeta).filter
      fun m => m.id = r.id) = [] := by
    refine List.filter_eq_nil_iff.mpr fun m hm => ?_
    obtain ⟨u, hu, rfl⟩ := List.mem_map.mp hm
    have hnone := (Bool.or_eq_false_iff.mp h).2
    have := List.any_eq_false.mp hnone u hu
    exact this
  have hself : ((t.job.jobMeta :: (q.tasks.drop (k + 1)).map fun t => t.job.jobMeta).filter
      fun m => m.id = r.id) = [t.job.jobMeta] := by
    have hself : decide (t.job.jobMeta.id = r.id) = true := decide_eq_true hid
    rw [List.filter_cons, hrest, if_pos hself]
  rw [lastMeta?, hsplit, List.map_append, List.map_cons, List.filter_append, hself,
    List.getLast?_concat]

end Queue

section Step

variable {codec : Codec} {backend : Backend} {q q' : Queue} {a : Action}

/-- Nor does a step of a task change what it read. -/
theorem lastMeta?_set {k : ℕ} {t u : Task} (ht : q.tasks[k]? = some t)
    (hu : u.job.jobMeta = t.job.jobMeta) (htasks : q'.tasks = q.tasks.set k u) (id : ℕ) :
    q'.lastMeta? id = q.lastMeta? id := by
  have hmetas : ((q.tasks.set k u).map fun t => t.job.jobMeta) =
      q.tasks.map fun t => t.job.jobMeta := by
    refine List.ext_getElem? fun j => ?_
    rw [List.getElem?_map, List.getElem?_map]
    by_cases hj : k = j
    · subst hj
      rw [List.getElem?_set_self (List.getElem?_eq_some_iff.mp ht).1, ht, Option.map_some,
        Option.map_some, hu]
    · rw [List.getElem?_set_ne hj]
  rw [Queue.lastMeta?, htasks, hmetas, Queue.lastMeta?]

/-- Only the commit of a fetch changes which fetch was the latest. -/
theorem Effect.lastMeta?_eq (he : Effect codec q a q') (ha : ∀ i, a ≠ .commit i) (id : ℕ) :
    q'.lastMeta? id = q.lastMeta? id := by
  cases he with
  | claim i => exact absurd rfl (ha i)
  | handle k t ht => exact lastMeta?_set (u := t.handle codec) ht rfl rfl id
  | finish k now outcome options t jobs ht => exact lastMeta?_set (u := t.finish) ht rfl rfl id
  | lose k t ht => exact lastMeta?_set (u := t.finish) ht rfl rfl id
  | _ => rfl

/-- The tasks of a commit, for a job that it takes. -/
theorem lastMeta?_append_spawn {i : ℕ} {jobType : String} {stage : Stage} {rows : List JobRow}
    {r : JobRow} {tasks : List Task} (hnodup : (rows.map JobRow.id).Nodup) (hr : r ∈ rows) :
    (((tasks ++ rows.map (Task.spawn i jobType stage)).map fun t => t.job.jobMeta).filter
      fun m => m.id = r.id).getLast? = some r.jobMeta := by
  have hmetas : ((rows.map (Task.spawn i jobType stage)).map fun t => t.job.jobMeta) =
      rows.map JobRow.jobMeta := by
    rw [List.map_map]
    rfl
  have hself : ((rows.map JobRow.jobMeta).filter fun m => m.id = r.id) = [r.jobMeta] := by
    rw [List.filter_map]
    show (rows.filter fun s => s.id = r.id).map JobRow.jobMeta = _
    rw [filter_id_eq hnodup hr]
    rfl
  rw [List.map_append, hmetas, List.filter_append, hself, List.getLast?_concat]

/-- And for one that it does not take. -/
theorem lastMeta?_append_of_not_mem {i id : ℕ} {jobType : String} {stage : Stage}
    {rows : List JobRow} {tasks : List Task} (hid : id ∉ rows.map JobRow.id) :
    (((tasks ++ rows.map (Task.spawn i jobType stage)).map fun t => t.job.jobMeta).filter
      fun m => m.id = id) = (tasks.map fun t => t.job.jobMeta).filter fun m => m.id = id := by
  have hnone : ((rows.map (Task.spawn i jobType stage)).map fun t => t.job.jobMeta).filter
      (fun m => m.id = id) = [] := by
    refine List.filter_eq_nil_iff.mpr fun m hm => ?_
    rw [List.map_map] at hm
    obtain ⟨s, hs, rfl⟩ := List.mem_map.mp hm
    have hne : s.id ≠ id := fun heq => hid (heq ▸ List.mem_map_of_mem hs)
    exact fun h => hne (of_decide_eq_true h)
  rw [List.map_append, List.filter_append, hnone, List.append_nil]

theorem owned_act (h : q.Owned) (he : Effect codec q a q') : q'.Owned := by
  intro id r' m hr' hrunning hm
  by_cases ha : ∃ i, a = .commit i
  · obtain ⟨i, rfl⟩ := ha
    cases he with
    | failed => exact h id r' m hr' hrunning hm
    | fetching _ fetches ha => exact h id r' m hr' hrunning hm
    | claim i o rows fetches hopen hnodup hrows =>
      change (Pg.markRunning o.call (rows.map JobRow.id) q.jobs).get? id = some r' at hr'
      rw [get?_markRunning] at hr'
      obtain ⟨r, hr, hafter⟩ := Option.map_eq_some_iff.mp hr'
      by_cases hid : id ∈ rows.map JobRow.id
      · obtain ⟨s, hs, rfl⟩ := List.mem_map.mp hid
        rw [if_pos hid] at hafter
        have hsr : r = s := Option.some_inj.mp (hr.symm.trans (hrows s hs).1)
        subst hsr hafter
        rw [Queue.lastMeta?, lastMeta?_append_spawn hnodup hs] at hm
        exact (Option.some_inj.mp hm).symm
      · rw [if_neg hid] at hafter
        subst hafter
        rw [Queue.lastMeta?, lastMeta?_append_of_not_mem hid] at hm
        exact h id r m hr hrunning hm
  · rw [he.lastMeta?_eq (fun i hi => ha ⟨i, hi⟩)] at hm
    have hrow := he.row id
    rw [hr'] at hrow
    generalize hbefore : q.jobs.get? id = before at hrow
    cases hrow with
    | same => exact h id r' m hbefore hrunning hm
    | created => cases hrunning
    | claimed i => exact absurd ⟨i, rfl⟩ ha
    | completed k now outcome options t f r ht hstage hid hf => cases hf <;> cases hrunning
    | reopened => cases hrunning

/-- A step keeps both rules, if it is no harmful completion of a task that was overtaken. -/
theorem later_act (h : q.Owned) (he : Effect codec q a q') (ha : q.LateCompletesWell a) :
    q.jobs.Later q'.jobs := by
  refine ⟨?_, fun id r' hr' hid => ?_⟩
  · cases he with
    | enqueue => exact Nat.le_succ _
    | finish k now outcome options t jobs ht hstage hfree hlocked hwrites =>
      rcases hwrites with rfl | ⟨f, hf, -, rfl⟩ <;> exact le_refl _
    | _ => exact le_refl _
  · have hrow := he.row id
    rw [hr'] at hrow
    generalize hbefore : q.jobs.get? id = before at hrow
    cases hrow with
    | same => exact ⟨r', rfl, .refl r'⟩
    | created now jobType payload delay retries runAt hnew => exact absurd hnew (Nat.ne_of_lt hid)
    | claimed i o r hopen hdue =>
      refine ⟨r, rfl, fun hfinished => ?_, le_refl _⟩
      rw [(JobRow.isDue_iff.mp hdue).2.1] at hfinished
      cases hfinished
    | completed k now outcome options t f r ht hstage htid hf =>
      refine ⟨r, rfl, (harmless_iff hf r).mp ?_⟩
      have hrid : r.id = id := Table.key_of_get? hbefore
      cases hover : q.overtaken k r with
      | true => exact ha k now outcome options rfl t r ht (htid ▸ hbefore) hover
      | false =>
        -- the job is running as the task read it
        have hrunning : r.status = .running := by
          simpa using (Bool.or_eq_false_iff.mp hover).1
        have hlast := Queue.lastMeta?_of_not_overtaken ht (htid.trans hrid.symm) hover
        have hmeta := h id r _ hbefore hrunning (hrid ▸ hlast)
        have hattempts : r.attempts ≤ r.attempts + 1 := by omega
        rw [hmeta]
        cases outcome with
        | ok u => simp [JobMeta.harmless, hrunning]
        | error e =>
          simp [JobMeta.harmless, hrunning, JobRow.jobMeta, JobStatus.finished]
    | reopened now options t r ht horphaned =>
      refine ⟨r, rfl, fun hfinished => ?_, le_refl _⟩
      rw [JobRow.running_of_isOrphaned horphaned] at hfinished
      cases hfinished

end Step

/-- Along every run in which no task does harm after it has been overtaken: a job that is finished
keeps its status until it is deleted, and its attempts never decrease. -/
theorem later_of_run {codec : Codec} {backend : Backend} {q q' : Queue}
    (hrun : Machine.Run (Queue.act codec backend) Queue.LateCompletesWell .init q)
    (hrun' : Machine.Run (Queue.act codec backend) Queue.LateCompletesWell q q') :
    q.jobs.Later q'.jobs := by
  have hstep : ∀ (q : Queue) (a : Action) (q' : Queue), q.Fetching backend ∧ q.Owned →
      q.LateCompletesWell a →
      q.act codec backend a = some q' →
      (q'.Fetching backend ∧ q'.Owned) ∧ q.jobs.Later q'.jobs := by
    rintro q a q' ⟨hfetching, howned⟩ ha hact
    have he := effect_act hfetching hact
    exact ⟨⟨fetching_act hfetching hact, owned_act howned he⟩, later_act howned he ha⟩
  have hinv : q.Fetching backend ∧ q.Owned :=
    hrun.invariant (P := fun q => q.Fetching backend ∧ q.Owned)
      ⟨Queue.fetching_init, Queue.owned_init⟩ fun t a u ht ha hact => (hstep t a u ht ha hact).1
  exact hrun'.related (R := fun q q' => q.jobs.Later q'.jobs) hinv hstep
    (fun q => Jobs.Later.refl q.jobs) fun _ _ _ => Jobs.Later.trans

/-! ## On fixed runs -/

/-- The test that decides `LateCompletesWell`. -/
def Queue.lateCompletesWell (q : Queue) : Action → Bool
  | .finish k _ outcome _ => (q.tasks[k]?).all fun t => (q.jobs.get? t.id).all fun r =>
    !q.overtaken k r || t.job.jobMeta.harmless outcome r
  | _ => true

theorem Queue.lateCompletesWell_of_test {q : Queue} {a : Action}
    (h : q.lateCompletesWell a = true) : q.LateCompletesWell a := by
  rintro k now outcome options rfl t r ht hr hover
  simp only [lateCompletesWell, ht, Option.all_some, hr, hover] at h
  simpa using h

/-- A job that fails once, is retried after the backoff and then succeeds. -/
theorem later_of_run_oneRetry :
    ∃ q q', Machine.Run (Queue.act .lenient .pg) Queue.LateCompletesWell .init q ∧
      Machine.Run (Queue.act .lenient .pg) Queue.LateCompletesWell q q' ∧
      q.jobs.Later q'.jobs ∧ (q'.jobs.get? 1).map JobRow.status = some .done ∧
      (q'.jobs.get? 1).map JobRow.attempts = some 1 := by
  have hplay : ((Machine.play (Queue.act .lenient .pg) Queue.lateCompletesWell .init
      [.enqueue 50 "report" "1" 0 3, .fetch ⟨"report", 1, "local-worker", 100⟩ [], .commit 0,
        .handle 0]).bind fun q => (Machine.play (Queue.act .lenient .pg) Queue.lateCompletesWell q
      [.finish 0 200 (.error "unreachable") .default,
        .fetch ⟨"report", 1, "local-worker", 1300⟩ [], .commit 1, .handle 1,
        .finish 1 1400 (.ok ()) .default]).map fun q' =>
          ((q'.jobs.get? 1).map JobRow.status, (q'.jobs.get? 1).map JobRow.attempts)) =
        some (some .done, some 1) := by
    decide +kernel
  obtain ⟨q, hq, hrest⟩ := Option.bind_eq_some_iff.mp hplay
  obtain ⟨q', hq', hfacts⟩ := Option.map_eq_some_iff.mp hrest
  obtain ⟨hstatus, hattempts⟩ := Prod.mk.inj hfacts
  have hrun := Machine.Run.of_play (fun _ _ => Queue.lateCompletesWell_of_test) .refl hq
  have hrun' := Machine.Run.of_play (fun _ _ => Queue.lateCompletesWell_of_test) .refl hq'
  exact ⟨q, q', hrun, hrun', later_of_run hrun hrun', hstatus, hattempts⟩

/-- The first worker is slow, the sweep puts the job back, a second worker finishes it, and then
the first one fails: the finished job is pending again. -/
theorem finished_reopened :
    ¬∀ (codec : Codec) (backend : Backend) (q q' : Queue),
      Machine.Run (Queue.act codec backend) (fun _ _ => True) .init q →
      Machine.Run (Queue.act codec backend) (fun _ _ => True) q q' → q.jobs.Later q'.jobs := by
  intro h
  have hplay : ((Machine.play (Queue.act .lenient .pg) (fun _ _ => true) .init
      [.enqueue 50 "report" "1" 0 3, .fetch ⟨"report", 1, "local-worker", 100⟩ [], .commit 0,
        .handle 0, .sweep 700000 .default, .fetch ⟨"report", 1, "local-worker", 700001⟩ [],
        .commit 1, .handle 1, .finish 1 700010 (.ok ()) .default]).bind fun q =>
      (Machine.play (Queue.act .lenient .pg) (fun _ _ => true) q
        [.finish 0 700020 (.error "unreachable") .default]).map fun q' =>
          (q.jobs.nextId, (q.jobs.get? 1).map JobRow.status,
            (q'.jobs.get? 1).map JobRow.status)) = some (2, some .done, some .pending) := by
    decide +kernel
  obtain ⟨q, hq, hrest⟩ := Option.bind_eq_some_iff.mp hplay
  obtain ⟨q', hq', hfacts⟩ := Option.map_eq_some_iff.mp hrest
  obtain ⟨hnext, hfacts⟩ := Prod.mk.inj hfacts
  obtain ⟨hbefore, hafter⟩ := Prod.mk.inj hfacts
  obtain ⟨r', hr', hpending⟩ := Option.map_eq_some_iff.mp hafter
  obtain ⟨r, hr, hdone⟩ := Option.map_eq_some_iff.mp hbefore
  have hlater := h .lenient .pg q q' (.of_play (fun _ _ _ => trivial) .refl hq)
    (.of_play (fun _ _ _ => trivial) .refl hq')
  obtain ⟨s, hs, hlate⟩ := hlater.2 1 r' hr' (by omega)
  rw [hr] at hs
  cases hs
  have hstatus := hlate.1 (by rw [hdone]; rfl)
  rw [hpending, hdone] at hstatus
  cases hstatus

end Slab.JobQueue
