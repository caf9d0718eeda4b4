import Slab.JobQueue.Progress
import Slab.Txn.Budget

/-!
# Every job ends

A queue that goes on and on gets each of its jobs done, or fails it for good, provided that
workers stop crashing, tasks come to an end, the sweep finds the jobs of those that crashed, and
fetches look for due jobs. That a fetch takes only the first few is no obstacle: the jobs that come
before another one use up their attempts.

## Main definitions

- `Action.After` — when the jobs are to run that an action enqueues or puts off
- `Forever` — an infinite run
- `Fair` — what is asked of it

## Main results

- `jobs_end` — from some time on a job is finished, in either backend
-/

namespace Slab.JobQueue

open Txn

/-! ## The order in which jobs are fetched -/

/-- `Utc::now() + delay`, or `now_millis() + delay`, stored. -/
def Backend.retryAt (now : ℤ) (delay : ℕ) : Backend → Except Failure ℤ
  | pg => Pg.retryAt now delay
  | sqlite => Sqlite.retryAt now delay

/-- A job that the action enqueues or puts off is not to run before `s`, nor at `s`. -/
def Action.After (backend : Backend) (s : ℤ) : Action → Prop
  | .enqueue now _ _ delay _ => ∀ t, addMillis now (castMillis delay) = .ok t → s < t
  | .finish _ now _ options =>
    ∀ attempt t, backend.retryAt now (backoffDelay attempt options) = .ok t → s < t
  | _ => True

/-- The rows that an open fetch takes when it commits. -/
def OpenFetch.picked (v : Jobs) : OpenFetch → List JobRow
  | .locked _ rows => rows
  | .begun call => Sqlite.selectDue call v
  | .marked call _ _ => Sqlite.selectDue call v

section Order

variable {codec : Codec} {backend : Backend} {q q' : Queue} {a : Action}

/-- The first of the elements in order comes before each of them. -/
theorem exists_mem_take_insertionSort {α : Type} {R : α → α → Prop} [DecidableRel R]
    [Std.Total R] [IsTrans α R] {l : List α} {x : α} {n : ℕ} (hx : x ∈ l) (hn : 0 < n) :
    ∃ y ∈ (l.insertionSort R).take n, R y x := by
  have hmem : x ∈ l.insertionSort R := (List.mem_insertionSort R).mpr hx
  have hsorted := List.pairwise_insertionSort R l
  cases hl : l.insertionSort R with
  | nil =>
    rw [hl] at hmem
    cases hmem
  | cons y ys =>
    rw [hl] at hmem hsorted
    refine ⟨y, ?_, ?_⟩
    · rw [List.take_cons hn]
      exact List.mem_cons_self
    · rcases List.mem_cons.mp hmem with rfl | hin
      · exact (Std.Total.total x x).elim id id
      · exact List.rel_of_pairwise_cons hsorted hin

instance : Std.Total Pg.fetchOrder where
  total r s := by
    show (r.runAt < s.runAt ∨ r.runAt = s.runAt ∧ r.id ≤ s.id) ∨
      (s.runAt < r.runAt ∨ s.runAt = r.runAt ∧ s.id ≤ r.id)
    omega

instance : IsTrans JobRow Pg.fetchOrder where
  trans r s t hrs hst := by
    show r.runAt < t.runAt ∨ r.runAt = t.runAt ∧ r.id ≤ t.id
    rcases hrs with h | h <;> rcases hst with h' | h' <;> omega

instance : Std.Total fun r s : JobRow => r.id ≤ s.id where
  total r s := Nat.le_total r.id s.id

instance : IsTrans JobRow fun r s => r.id ≤ s.id where
  trans _ _ _ := Nat.le_trans

/-- A fetch of Postgres that sees a job takes it, or one that comes before it. -/
theorem Pg.exists_before {call : FetchCall} {busy : ℕ → Bool} {v : Jobs} {r : JobRow}
    (hr : v.get? r.id = some r) (hdue : call.isDue r = true) (hfree : busy r.id = false)
    (hlimit : 0 < call.limit) : ∃ s ∈ Pg.selectDue call busy v, Pg.fetchOrder s r := by
  refine exists_mem_take_insertionSort ?_ (by omega)
  refine List.mem_filter.mpr ⟨List.mem_filter.mpr ⟨Table.mem_of_get? hr, hdue⟩, ?_⟩
  rw [hfree]
  rfl

theorem Sqlite.exists_before {call : FetchCall} {v : Jobs} {r : JobRow}
    (hr : v.get? r.id = some r) (hdue : call.isDue r = true) (hlimit : 0 < call.limit) :
    ∃ s ∈ Sqlite.selectDue call v, s.id ≤ r.id := by
  rw [Sqlite.selectDue, if_neg (by omega)]
  exact exists_mem_take_insertionSort (R := fun r s : JobRow => r.id ≤ s.id)
    (List.mem_filter.mpr ⟨Table.mem_of_get? hr, hdue⟩) (by omega)

/-- A job that has just been enqueued runs when the clock and the delay say. -/
theorem enqueueAfter_runAt {now : ℤ} {jobType payload : String} {delay retries : ℕ} {v : Jobs}
    {id : ℕ} {r : JobRow}
    (h : (backend.enqueueAfter codec now jobType payload delay retries v).1.get? id = some r) :
    v.get? id = some r ∨ addMillis now (castMillis delay) = .ok r.runAt := by
  rw [Backend.enqueueAfter] at h
  generalize addMillis now (castMillis delay) = runAt at h ⊢
  have hinsert : ∀ t, (v.insert jobType payload t (maxAttemptsOf retries)).get? id = some r →
      v.get? id = some r ∨ t = r.runAt := by
    intro t ht
    rw [Jobs.get?_insert] at ht
    split at ht
    · cases ht
      exact .inr rfl
    · exact .inl ht
  cases runAt with
  | error e => exact .inl h
  | ok t =>
    rw [Jobs.orStop_ok] at h
    refine (?_ : v.get? id = some r ∨ t = r.runAt).imp_right fun ht => by rw [ht]
    cases backend with
    | sqlite => exact hinsert t h
    | pg =>
      rw [Backend.insert, Pg.insert, Pg.timestamp] at h
      split at h
      · rw [Jobs.orStop_ok] at h
        split at h
        · exact hinsert t h
        · exact .inl h
      · exact .inl h

/-- A task that ends leaves the time of its job, or puts it off by the backoff. -/
theorem finish_runAt {now : ℤ} {jobMeta : JobMeta} {outcome : Backend.Outcome}
    {options : WorkerOptions} {v : Jobs} {id : ℕ} {r : JobRow}
    (h : (backend.finish now jobMeta outcome options v).1.get? id = some r) :
    (∃ s, v.get? id = some s ∧ s.runAt = r.runAt) ∨
      backend.retryAt now (backoffDelay (jobMeta.attempts + 1) options) = .ok r.runAt := by
  have hupdate : ∀ (f : JobRow → JobRow) (hf : ∀ r, (f r).id = r.id),
      (∀ s, (f s).runAt = s.runAt) →
      (v.update (fun r => r.id = jobMeta.id) f hf).get? id = some r →
      ∃ s, v.get? id = some s ∧ s.runAt = r.runAt := by
    intro f hf hsame hr
    rw [Jobs.get?_update] at hr
    obtain ⟨s, hs, rfl⟩ := Option.map_eq_some_iff.mp hr
    refine ⟨s, hs, ?_⟩
    split
    · exact (hsame s).symm
    · rfl
  have hretried : ∀ (attempts t : ℤ) (e : String),
      (v.update (fun r => r.id = jobMeta.id) (JobRow.scheduleRetry attempts t e)
        (JobRow.scheduleRetry_id attempts t e)).get? id = some r →
      (∃ s, v.get? id = some s ∧ s.runAt = r.runAt) ∨ t = r.runAt := by
    intro attempts t e hr
    rw [Jobs.get?_update] at hr
    obtain ⟨s, hs, rfl⟩ := Option.map_eq_some_iff.mp hr
    split
    · exact .inr rfl
    · exact .inl ⟨s, hs, rfl⟩
  cases outcome with
  | ok u =>
    refine .inl (hupdate _ (JobRow.markDone_id now) (fun _ => rfl) ?_)
    cases backend <;> exact h
  | error e =>
    rw [Backend.finish, Backend.finishFailure] at h
    split at h
    · cases backend with
      | pg =>
        rw [Backend.scheduleRetry, Pg.scheduleRetry] at h
        rw [Backend.retryAt]
        generalize Pg.retryAt now _ = runAt at h ⊢
        cases runAt with
        | error e => exact .inl ⟨r, h, rfl⟩
        | ok t =>
          rw [Jobs.orStop_ok] at h
          split at h
          · exact (hretried _ t e h).imp_right fun ht => by rw [ht]
          · exact .inl ⟨r, h, rfl⟩
      | sqlite =>
        rw [Backend.scheduleRetry, Sqlite.scheduleRetry] at h
        rw [Backend.retryAt]
        generalize Sqlite.retryAt now _ = runAt at h ⊢
        cases runAt with
        | error e => exact .inl ⟨r, h, rfl⟩
        | ok t => exact (hretried _ t e h).imp_right fun ht => by rw [ht]
    · refine .inl ?_
      cases backend with
      | pg =>
        rw [Backend.markFailed, Pg.markFailed] at h
        split at h
        · exact hupdate _ (JobRow.markFailed_id _ now e) (fun _ => rfl) h
        · exact ⟨r, h, rfl⟩
      | sqlite => exact hupdate _ (JobRow.markFailed_id _ now e) (fun _ => rfl) h

/-- A step keeps the time of a job, or the job is to run later than the action says. -/
theorem runAt_act (hfetching : q.Fetching backend) (hact : q.act codec backend a = some q')
    {s : ℤ} (ha : a.After backend s) {id : ℕ} {r' : JobRow} (hr' : q'.jobs.get? id = some r') :
    (∃ r, q.jobs.get? id = some r ∧ r.runAt = r'.runAt) ∨ s < r'.runAt := by
  have hrow := (effect_act hfetching hact).row id
  rw [hr'] at hrow
  generalize hr : q.jobs.get? id = row at hrow
  cases hrow with
  | same => exact .inl ⟨r', rfl, rfl⟩
  | created now jobType payload delay retries runAt hid =>
    simp only [Queue.act, Queue.enqueue] at hact
    split at hact
    · have hjobs : q'.jobs = (backend.enqueueAfter codec now jobType payload delay retries
          q.jobs).1 := by
        rcases @enqueueAfter_cases codec backend now jobType payload delay retries q.jobs with
          ⟨runAt, hreply⟩ | ⟨e, hreply⟩
        · rw [hreply] at hact ⊢
          cases hact
          rfl
        · rw [hreply] at hact ⊢
          cases hact
          rfl
      rw [hjobs] at hr'
      rcases enqueueAfter_runAt hr' with hold | hnew
      · rw [hr] at hold
        cases hold
      · exact .inr (ha _ hnew)
    · cases hact
  | claimed i o r hopen hdue => exact .inl ⟨r, rfl, rfl⟩
  | completed k now outcome options t f r ht hstage hid hf =>
    simp only [Queue.act, Queue.finish, ht] at hact
    split at hact
    · cases hact
      rcases finish_runAt hr' with ⟨s', hs', hsame⟩ | hnew
      · rw [hr] at hs'
        cases hs'
        exact .inl ⟨r, rfl, hsame⟩
      · exact .inr (ha _ _ hnew)
    · cases hact
  | reopened now options t r ht horphaned => exact .inl ⟨r, rfl, rfl⟩

/-- A commit takes all rows that its fetch has picked, as they were. -/
theorem running_of_commit (hfetching : q.Fetching backend) {l : ℕ}
    (hact : q.act codec backend (.commit l) = some q') :
    ∃ o, q.fetch? l = some o ∧ ∀ r ∈ o.picked q.jobs, q.jobs.get? r.id = some r ∧
      r.status = .pending ∧
        q'.jobs.get? r.id = some (r.markRunning o.call.lockBy o.call.now) := by
  have htaken : ∀ (call : FetchCall) (rows : List JobRow), (∀ r ∈ rows,
      q.jobs.get? r.id = some r ∧ call.isDue r = true) → ∀ r ∈ rows,
        q.jobs.get? r.id = some r ∧ r.status = .pending ∧
          (Pg.markRunning call (rows.map JobRow.id) q.jobs).get? r.id =
            some (r.markRunning call.lockBy call.now) := by
    intro call rows hrows r hr
    obtain ⟨hget, hdue⟩ := hrows r hr
    refine ⟨hget, (JobRow.isDue_iff.mp hdue).2.1, ?_⟩
    rw [get?_markRunning, hget, Option.map_some, if_pos (List.mem_map_of_mem hr)]
  simp only [Queue.act, Queue.commit] at hact
  split at hact
  · next call rows hl =>
    cases hact
    exact ⟨_, hl, htaken call rows (hfetching.locked l call rows hl).2⟩
  · next call view rows hl =>
    cases hact
    refine ⟨_, hl, ?_⟩
    have hview : Pg.markRunning call ((Sqlite.selectDue call q.jobs).map JobRow.id) q.jobs =
        view := lockAndMark_fst.symm.trans (Prod.mk.inj (hfetching.marked l call view rows hl)).1
    have hrows := htaken call (Sqlite.selectDue call q.jobs) fun r hr => by
      obtain ⟨hr, hdue⟩ := List.mem_filter.mp (mem_due_of_sqlite_selectDue hr)
      exact ⟨Table.get?_of_mem hr, hdue⟩
    rw [hview] at hrows
    exact hrows
  · cases hact

/-- An open fetch stays as it is, or goes on, until it ends. -/
theorem fetch?_act (hfetching : q.Fetching backend) (hact : q.act codec backend a = some q')
    {l : ℕ} (hl : l < q.fetches.length) :
    l < q'.fetches.length ∧ (q'.fetch? l = q.fetch? l ∨ q'.fetch? l = none ∨
      ∃ call view rows, q.fetch? l = some (.begun call) ∧
        q'.fetch? l = some (.marked call view rows)) := by
  have hended : ∀ i, l < (q.endFetch i).fetches.length ∧
      ((q.endFetch i).fetch? l = q.fetch? l ∨ (q.endFetch i).fetch? l = none) := by
    intro i
    refine ⟨by rwa [Queue.endFetch, List.length_set], ?_⟩
    by_cases hi : i = l
    · subst hi
      right
      rw [Queue.fetch?, Queue.endFetch, List.getElem?_set_self hl]
      rfl
    · left
      rw [Queue.fetch?, Queue.endFetch, List.getElem?_set_ne hi]
      rfl
  have hopened : ∀ o, q' = { q with fetches := q.fetches ++ [some o] } →
      l < q'.fetches.length ∧ q'.fetch? l = q.fetch? l := by
    rintro o rfl
    refine ⟨Nat.lt_of_lt_of_le hl ?_, ?_⟩
    · rw [List.length_append]
      exact Nat.le_add_right _ _
    · rw [Queue.fetch?, List.getElem?_append_left hl]
      rfl
  have hstatement : a.isFetching = false → (∀ i, a ≠ .commit i) → q'.fetches = q.fetches := by
    intro hno hcommit
    cases effect_act hfetching hact with
    | fetching a fetches hyes =>
      rw [hno] at hyes
      cases hyes
    | claim i => exact absurd rfl (hcommit i)
    | _ => rfl
  cases a with
  | fetch call busy =>
    simp only [Queue.act, Queue.fetchDue] at hact
    cases backend with
    | pg =>
      simp only at hact
      split at hact
      · cases hact
        exact ⟨hl, .inl rfl⟩
      · obtain ⟨hlen, hsame⟩ := hopened _ (Option.some_inj.mp hact).symm
        exact ⟨hlen, .inl hsame⟩
    | sqlite =>
      simp only at hact
      split at hact
      · cases hact
      · obtain ⟨hlen, hsame⟩ := hopened _ (Option.some_inj.mp hact).symm
        exact ⟨hlen, .inl hsame⟩
  | mark i =>
    simp only [Queue.act, Queue.lockAndMark] at hact
    split at hact
    · next call hi =>
      cases hact
      refine ⟨by rwa [List.length_set], ?_⟩
      rw [Queue.fetch?, slot_set_some hi]
      split
      · next heq => exact .inr (.inr ⟨call, _, _, heq ▸ hi, rfl⟩)
      · exact .inl rfl
    · cases hact
  | commit i =>
    simp only [Queue.act, Queue.commit] at hact
    split at hact
    · cases hact
      obtain ⟨hlen, hsame | hnone⟩ := hended i
      · exact ⟨hlen, .inl hsame⟩
      · exact ⟨hlen, .inr (.inl hnone)⟩
    · cases hact
      obtain ⟨hlen, hsame | hnone⟩ := hended i
      · exact ⟨hlen, .inl hsame⟩
      · exact ⟨hlen, .inr (.inl hnone)⟩
    · cases hact
  | rollback i =>
    obtain ⟨o, -, rfl⟩ := Option.map_eq_some_iff.mp hact
    obtain ⟨hlen, hsame | hnone⟩ := hended i
    · exact ⟨hlen, .inl hsame⟩
    · exact ⟨hlen, .inr (.inl hnone)⟩
  | _ =>
    have hfetches := hstatement rfl fun i hcommit => by cases hcommit
    exact ⟨hfetches ▸ hl, .inl (by rw [Queue.fetch?, Queue.fetch?, hfetches])⟩

end Order

/-- A sweep puts back the jobs that it finds. -/
theorem reenqueue_of_sweep {codec : Codec} {backend : Backend} {q q' : Queue} {now t : ℤ}
    {options : WorkerOptions} (hact : q.act codec backend (.sweep now options) = some q')
    (ht : Backend.olderThan now options = .ok t) {id : ℕ} {r : JobRow}
    (horphaned : r.isOrphaned t = true) (hstored : backend = .pg → Pg.timestamp t = .ok t)
    (hr : q.jobs.get? id = some r) : q'.jobs.get? id = some r.reenqueue := by
  have hupdate : (q.jobs.update (JobRow.isOrphaned t) JobRow.reenqueue JobRow.reenqueue_id).get?
      id = some r.reenqueue := by
    rw [Jobs.get?_update, hr, Option.map_some, if_pos horphaned]
  simp only [Queue.act, Queue.sweep, ht, Queue.orStop_ok] at hact
  split at hact
  · cases hact
    cases backend with
    | sqlite => exact hupdate
    | pg =>
      show (Pg.reenqueueOrphaned t q.jobs).1.get? id = _
      rw [Pg.reenqueueOrphaned, hstored rfl]
      exact hupdate
  · cases hact

/-! ## Infinite runs -/

/-- An infinite run. Producers enqueue what the library reads back, and the sweep finds only jobs
that no task is at work on any more. -/
structure Forever (codec : Codec) (backend : Backend) (q : ℕ → Queue) (a : ℕ → Action) : Prop where
  init : q 0 = .init
  act : ∀ i, (q i).act codec backend (a i) = some (q (i + 1))
  readable : ∀ i, (a i).Readable codec
  unattended : ∀ i, (q i).SweepsUnattended (a i)

/-- After `i` a fetch looks for due jobs when nothing has locked the row of the job, and commits. -/
def Seen (q : ℕ → Queue) (a : ℕ → Action) (i : ℕ) (r : JobRow) : Prop :=
  ∃ call busy j m, i ≤ j ∧ j < m ∧ a j = .fetch call busy ∧
    (q j).fetches.length < (q (j + 1)).fetches.length ∧ a m = .commit (q j).fetches.length ∧
    call.isDue r = true ∧ 0 < call.limit ∧ r.id ∉ busy ∧ (q j).holds r.id = false

/-- After `i` a sweep looks for jobs that have been running for as long as the job. -/
def Swept (backend : Backend) (a : ℕ → Action) (i : ℕ) (r : JobRow) : Prop :=
  ∃ j now options t, i ≤ j ∧ a j = .sweep now options ∧ Backend.olderThan now options = .ok t ∧
    r.isOrphaned t = true ∧ (backend = .pg → Pg.timestamp t = .ok t)

/-- From some time on nothing crashes. Every task ends. A job that stays pending is looked for, and
one that stays running although no task is at work on it; and in Postgres, where jobs are fetched by
the time at which they are to run, the clock goes past that time. -/
structure Fair (backend : Backend) (q : ℕ → Queue) (a : ℕ → Action) : Prop where
  calm : ∃ n, ∀ i, n ≤ i → (q i).Calm backend (a i)
  ended : ∀ (i k : ℕ) (t : Task), (q i).tasks[k]? = some t →
    ∃ j, i ≤ j ∧ ∀ u : Task, (q j).tasks[k]? = some u → ¬u.Live
  seen : ∀ i id r, (q i).jobs.get? id = some r → r.status = .pending →
    (∃ j, i ≤ j ∧ (q j).jobs.get? id ≠ some r) ∨ Seen q a i r
  swept : ∀ i id r, (q i).jobs.get? id = some r → r.status = .running →
    (∃ j, i ≤ j ∧ (q j).view id ≠ (some r, false)) ∨ Swept backend a i r
  later : backend = .pg → ∀ i id r, (q i).jobs.get? id = some r → r.status = .pending →
    (∃ j, i ≤ j ∧ (q j).jobs.get? id ≠ some r) ∨ ∃ n, ∀ j, n ≤ j → (a j).After .pg r.runAt

section Runs

variable {codec : Codec} {backend : Backend} {q : ℕ → Queue} {a : ℕ → Action} {n id : ℕ}

theorem Forever.inv (h : Forever codec backend q a) (i : ℕ) :
    (q i).Fetching backend ∧ (q i).Kept codec ∧ (q i).Manned := by
  induction i with
  | zero =>
    rw [h.init]
    exact ⟨Queue.fetching_init, Queue.kept_init, Queue.manned_init⟩
  | succ i ih =>
    obtain ⟨hfetching, hkept, hmanned⟩ := ih
    have he := effect_act hfetching (h.act i)
    exact ⟨fetching_act hfetching (h.act i), kept_act hkept he (h.readable i),
      manned_act hmanned he (h.unattended i)⟩

theorem Forever.nextId_mono (h : Forever codec backend q a) :
    Monotone fun i => (q i).jobs.nextId :=
  monotone_nat_of_le_succ fun i => (effect_act (h.inv i).1 (h.act i)).nextId_le

theorem Forever.change (h : Forever codec backend q a) {i : ℕ} (hcalm : (q i).Calm backend (a i))
    (hid : id < (q i).jobs.nextId) : Change ((q i).view id) ((q (i + 1)).view id) := by
  obtain ⟨hfetching, hkept, hmanned⟩ := h.inv i
  exact change_act hfetching hkept hmanned (h.act i) (h.unattended i) hcalm hid

/-- From some time on nothing more is done about the jobs that there are. -/
theorem Forever.exists_still (h : Forever codec backend q a)
    (hcalm : ∀ i, n ≤ i → (q i).Calm backend (a i)) :
    ∃ m, n ≤ m ∧ ∀ j, m ≤ j → ∀ id < (q n).jobs.nextId,
      (q (j + 1)).weight id = (q j).weight id := by
  set work : ℕ → ℤ := fun i => ∑ id ∈ Finset.range (q n).jobs.nextId, (q (n + i)).weight id
    with hwork
  have hle : ∀ i id, id < (q n).jobs.nextId →
      (q (n + i + 1)).weight id ≤ (q (n + i)).weight id := fun i id hid =>
    (h.change (hcalm (n + i) (Nat.le_add_right n i))
      (lt_of_lt_of_le hid (h.nextId_mono (Nat.le_add_right n i)))).weight_le
  have hstep : ∀ i, work (i + 1) ≤ work i := fun i =>
    Finset.sum_le_sum fun id hid => hle i id (Finset.mem_range.mp hid)
  have hnonneg : ∀ i, 0 ≤ work i := fun i =>
    Finset.sum_nonneg fun id _ => weightOf_nonneg _
  obtain ⟨m, hm⟩ := @exists_quiet work (fun i => (work i - work (i + 1)).toNat)
    (fun i => by have := hstep i; omega) hnonneg
  refine ⟨n + m, Nat.le_add_right n m, fun j hj id hid => ?_⟩
  obtain ⟨k, rfl⟩ := Nat.exists_eq_add_of_le (le_trans (Nat.le_add_right n m) hj)
  have hquiet := hm k (by omega)
  have hsame : work (k + 1) = work k := by
    have := hstep k
    omega
  exact (Finset.sum_eq_sum_iff_of_le fun id hid => hle k id (Finset.mem_range.mp hid)).mp hsame id
    (Finset.mem_range.mpr hid)

/-- A task at work goes on, or nobody is at work on its job any more. -/
theorem attended_act {q q' : Queue} {a : Action} (h : q.Manned) (he : Effect codec q a q')
    {k : ℕ} {t : Task} (ht : q.tasks[k]? = some t) (hlive : t.Live) :
    (∃ u : Task, q'.tasks[k]? = some u ∧ u.id = t.id ∧ u.Live) ∨ q'.attended t.id = false := by
  have hset : ∀ (l : ℕ) (s u : Task), q.tasks[l]? = some s → u.id = s.id → u.Live →
      ∃ u' : Task, (q.tasks.set l u)[k]? = some u' ∧ u'.id = t.id ∧ u'.Live := by
    intro l s u hs hid hl
    by_cases hk : l = k
    · subst hk
      rw [ht] at hs
      cases hs
      exact ⟨u, List.getElem?_set_self (List.getElem?_eq_some_iff.mp ht).1, hid, hl⟩
    · exact ⟨t, (List.getElem?_set_ne hk).trans ht, rfl, hlive⟩
  have hfinish : ∀ (l : ℕ) (s : Task) (jobs : Jobs), q.tasks[l]? = some s →
      (∃ u : Task, (q.tasks.set l s.finish)[k]? = some u ∧ u.id = t.id ∧ u.Live) ∨
        Queue.attended { q with jobs := jobs, tasks := q.tasks.set l s.finish } t.id = false := by
    intro l s jobs hs
    by_cases hk : l = k
    · subst hk
      rw [ht] at hs
      cases hs
      exact .inr ((attended_finish h ht hlive jobs t.id).trans (if_pos rfl))
    · exact .inl ⟨t, (List.getElem?_set_ne hk).trans ht, rfl, hlive⟩
  cases he with
  | claim i o rows fetches hopen hnodup hrows =>
    exact .inl ⟨t, (List.getElem?_append_left (List.getElem?_eq_some_iff.mp ht).1).trans ht, rfl,
      hlive⟩
  | handle l s hs hstage =>
    have hrunning : (s.handle codec).stage = .running := rfl
    exact .inl (hset l s (s.handle codec) hs rfl (by rw [Task.Live, hrunning]; decide))
  | finish l now outcome options s jobs hs hstage hfree hlocked hwrites => exact hfinish l s jobs hs
  | lose l s hs => exact hfinish l s q.jobs hs
  | _ => exact .inl ⟨t, ht, rfl, hlive⟩

/-- While nothing more is done about a job, it stays as it is, is put back, or is deleted. -/
theorem Forever.view_succ (h : Forever codec backend q a) {i : ℕ} (hcalm : (q i).Calm backend (a i))
    (hid : id < (q i).jobs.nextId) (hsame : (q (i + 1)).weight id = (q i).weight id) :
    (q (i + 1)).view id = (q i).view id ∨
      (∃ r, (q i).view id = (some r, false) ∧ r.status = .running ∧
        (q (i + 1)).view id = (some r.reenqueue, false)) ∨
      ∃ r, (q i).view id = (some r, false) ∧ r.status.finished = true ∧
        (q (i + 1)).view id = (none, false) :=
  (h.change hcalm hid).of_weight_eq hsame

/-- When nothing more is done about a job, nobody is at work on it. -/
theorem Forever.unattended_of_still (h : Forever codec backend q a) (hfair : Fair backend q a)
    {m : ℕ} (hcalm : ∀ i, m ≤ i → (q i).Calm backend (a i)) (hid : id < (q m).jobs.nextId)
    (hstill : ∀ j, m ≤ j → (q (j + 1)).weight id = (q j).weight id) {j : ℕ} (hj : m ≤ j) :
    (q j).attended id = false := by
  rw [← Bool.not_eq_true]
  intro hattended
  obtain ⟨k, t, ht, rfl, hlive⟩ := Queue.attended_iff.mp hattended
  -- the task would be at work for ever
  have hforever : ∀ s, j ≤ s → ∃ u : Task, (q s).tasks[k]? = some u ∧ u.id = t.id ∧ u.Live := by
    intro s hs
    induction s, hs using Nat.le_induction with
    | base => exact ⟨t, ht, rfl, hlive⟩
    | succ s hs ih =>
      obtain ⟨u, hu, huid, hul⟩ := ih
      obtain ⟨hfetching, -, hmanned⟩ := h.inv s
      have hstep := attended_act hmanned (effect_act hfetching (h.act s)) hu hul
      rw [huid] at hstep
      refine hstep.resolve_right fun hnobody => ?_
      have hnow : (q s).attended t.id = true := Queue.attended_iff.mpr ⟨k, u, hu, huid, hul⟩
      have hms := le_trans hj hs
      have hid' := lt_of_lt_of_le hid (h.nextId_mono hms)
      rcases h.view_succ (hcalm s hms) hid' (hstill s hms) with hsame | ⟨r, hr, -⟩ | ⟨r, hr, -⟩
      · rw [Queue.view, Queue.view, hnobody, hnow] at hsame
        cases (Prod.mk.inj hsame).2
      · rw [Queue.view, hnow] at hr
        cases (Prod.mk.inj hr).2
      · rw [Queue.view, hnow] at hr
        cases (Prod.mk.inj hr).2
  obtain ⟨s, hs, hended⟩ := hfair.ended j k t ht
  obtain ⟨u, hu, -, hul⟩ := hforever s hs
  exact hended u hu hul

/-- A job that is not finished, although nothing more is done about it, is pending from some time
on. -/
theorem Forever.pending_of_still (h : Forever codec backend q a) (hfair : Fair backend q a)
    {m : ℕ} (hcalm : ∀ i, m ≤ i → (q i).Calm backend (a i)) (hid : id < (q m).jobs.nextId)
    (hstill : ∀ j, m ≤ j → (q (j + 1)).weight id = (q j).weight id)
    (hopen : ∀ j, m ≤ j → ∃ r, (q j).jobs.get? id = some r ∧ r.status.finished = false) :
    ∃ n r, m ≤ n ∧ r.status = .pending ∧ ∀ j, n ≤ j → (q j).jobs.get? id = some r := by
  have hview : ∀ j, m ≤ j → ∃ r, (q j).view id = (some r, false) ∧ r.status.finished = false := by
    intro j hj
    obtain ⟨r, hr, hfinished⟩ := hopen j hj
    exact ⟨r, Prod.ext hr (h.unattended_of_still hfair hcalm hid hstill hj), hfinished⟩
  have hsucc : ∀ j r, m ≤ j → (q j).view id = (some r, false) →
      (q (j + 1)).view id = (some r, false) ∨
        r.status = .running ∧ (q (j + 1)).view id = (some r.reenqueue, false) := by
    intro j r hj hr
    have hid' := lt_of_lt_of_le hid (h.nextId_mono hj)
    rcases h.view_succ (hcalm j hj) hid' (hstill j hj) with hsame | ⟨s, hs, hrunning, hnext⟩ |
      ⟨s, -, -, hgone⟩
    · exact .inl (hsame.trans hr)
    · rw [hr] at hs
      cases hs
      exact .inr ⟨hrunning, hnext⟩
    · obtain ⟨s, hs, -⟩ := hview (j + 1) (by omega)
      rw [hgone] at hs
      cases hs
  -- once it is pending it stays so
  have hstays : ∀ n r, m ≤ n → (q n).view id = (some r, false) → r.status = .pending →
      ∀ j, n ≤ j → (q j).view id = (some r, false) := by
    intro n r hn hr hpending j hj
    induction j, hj using Nat.le_induction with
    | base => exact hr
    | succ j hj ih =>
      refine (hsucc j r (le_trans hn hj) ih).resolve_right fun hback => ?_
      rw [hpending] at hback
      cases hback.1
  have hexists : ∃ n r, m ≤ n ∧ (q n).view id = (some r, false) ∧ r.status = .pending := by
    by_contra hnever
    push Not at hnever
    -- otherwise it is running, with nobody at work on it, until the sweep finds it
    obtain ⟨r, hr, hfinished⟩ := hview m (le_refl m)
    have hrunning : r.status = .running := by
      have := hnever m r (le_refl m) hr
      cases hstatus : r.status <;> simp_all [JobStatus.finished]
    have hback : ∀ j, m ≤ j → (q (j + 1)).view id ≠ (some r.reenqueue, false) :=
      fun j hj heq => hnever (j + 1) r.reenqueue (by omega) heq rfl
    have hconstant : ∀ j, m ≤ j → (q j).view id = (some r, false) := by
      intro j hj
      induction j, hj using Nat.le_induction with
      | base => exact hr
      | succ j hj ih => exact (hsucc j r hj ih).resolve_right fun hnext => hback j hj hnext.2
    rcases hfair.swept m id r (congrArg Prod.fst hr) hrunning with ⟨j, hj, hne⟩ |
      ⟨j, now, options, t, hj, ha, ht, horphaned, hstored⟩
    · exact hne (hconstant j hj)
    · refine hback j hj (Prod.ext ?_ (h.unattended_of_still hfair hcalm hid hstill (by omega)))
      exact reenqueue_of_sweep (ha ▸ h.act j) ht horphaned hstored
        (congrArg Prod.fst (hconstant j hj))
  obtain ⟨n, r, hn, hr, hpending⟩ := hexists
  exact ⟨n, r, hn, hpending, fun j hj => congrArg Prod.fst (hstays n r hn hr hpending j hj)⟩

/-- A fetch keeps its arguments, and in Postgres the rows that it has selected. -/
theorem Forever.opened (h : Forever codec backend q a) {j : ℕ} {call : FetchCall} {busy : List ℕ}
    (ha : a j = .fetch call busy)
    (hlen : (q j).fetches.length < (q (j + 1)).fetches.length) {m : ℕ} (hm : j < m) :
    (q j).fetches.length < (q m).fetches.length ∧
      ∀ o, (q m).fetch? (q j).fetches.length = some o → o.call = call ∧ ∀ c rows,
        o = .locked c rows →
          rows = Pg.selectDue call (fun id => busy.contains id || (q j).holds id) (q j).jobs := by
  induction m, hm using Nat.le_induction with
  | base =>
    refine ⟨hlen, fun o ho => ?_⟩
    have hact := h.act j
    rw [ha] at hact
    simp only [Queue.act, Queue.fetchDue] at hact
    have hlast : ∀ p, q (j + 1) = { q j with fetches := (q j).fetches ++ [some p] } → o = p := by
      intro p hp
      rw [hp, Queue.fetch?, List.getElem?_concat_length] at ho
      exact (Option.some_inj.mp ho).symm
    cases backend with
    | pg =>
      simp only at hact
      split at hact
      · rw [← Option.some_inj.mp hact] at hlen
        exact absurd hlen (Nat.lt_irrefl _)
      · cases hlast _ (Option.some_inj.mp hact).symm
        refine ⟨rfl, fun c rows hrows => ?_⟩
        cases hrows
        rfl
    | sqlite =>
      simp only at hact
      split at hact
      · cases hact
      · cases hlast _ (Option.some_inj.mp hact).symm
        exact ⟨rfl, fun c rows hrows => by cases hrows⟩
  | succ m hm ih =>
    obtain ⟨hl, hsame⟩ := ih
    obtain ⟨hl', hstep⟩ := fetch?_act (h.inv m).1 (h.act m) hl
    refine ⟨hl', fun o ho => ?_⟩
    rw [ho] at hstep
    rcases hstep with hold | hnone | ⟨c, view, rows, hbegun, hmarked⟩
    · exact hsame o hold.symm
    · cases hnone
    · cases hmarked
      exact ⟨(hsame _ hbegun).1, fun c' rows' hrows => by cases hrows⟩

/-- A fetch that sees a pending job takes it, or a job that comes before it. -/
theorem Forever.taken_of_seen (h : Forever codec backend q a) {i : ℕ} {r : JobRow}
    (hpending : ∀ j, i ≤ j → (q j).jobs.get? r.id = some r) (hseen : Seen q a i r) :
    ∃ m s s', i ≤ m ∧ (q m).jobs.get? s.id = some s ∧ s.status = .pending ∧
      (q (m + 1)).jobs.get? s.id = some s' ∧ s'.status = .running ∧
        (backend = .pg → s.runAt ≤ r.runAt) ∧ (backend = .sqlite → s.id ≤ r.id) := by
  obtain ⟨call, busy, j, m, hij, hjm, hfetch, hlen, hcommit, hdue, hlimit, hbusy, hheld⟩ := hseen
  obtain ⟨-, hopened⟩ := h.opened hfetch hlen hjm
  have hact := h.act m
  rw [hcommit] at hact
  obtain ⟨o, ho, htaken⟩ := running_of_commit (h.inv m).1 hact
  obtain ⟨hcall, hrows⟩ := hopened o ho
  have hfirst : ∃ s ∈ o.picked (q m).jobs,
      (backend = .pg → s.runAt ≤ r.runAt) ∧ (backend = .sqlite → s.id ≤ r.id) := by
    have hkind := (h.inv m).1.kind _ o ho
    have hsqlite : ∀ s ∈ Sqlite.selectDue call (q m).jobs, s.id ≤ r.id → backend = .sqlite →
        (backend = .pg → s.runAt ≤ r.runAt) ∧ (backend = .sqlite → s.id ≤ r.id) := by
      rintro s - hs rfl
      exact ⟨nofun, fun _ => hs⟩
    have hnow := hpending m (by omega)
    cases o with
    | locked c rows =>
      -- the rows are those that the subquery found
      obtain rfl := hrows c rows rfl
      have hfree : (busy.contains r.id || (q j).holds r.id) = false := by simp [hbusy, hheld]
      obtain ⟨s, hs, horder⟩ := @Pg.exists_before call
        (fun id => busy.contains id || (q j).holds id) _ r (hpending j hij) hdue hfree hlimit
      refine ⟨s, hs, fun _ => ?_, fun hb => ?_⟩
      · rcases horder with hlt | ⟨heq, -⟩
        · exact hlt.le
        · exact heq.le
      · rw [hb] at hkind
        cases hkind
    | begun c =>
      obtain rfl : c = call := hcall
      obtain ⟨s, hs, hle⟩ := Sqlite.exists_before hnow hdue hlimit
      exact ⟨s, hs, hsqlite s hs hle (of_decide_eq_true hkind.symm)⟩
    | marked c view rows =>
      obtain rfl : c = call := hcall
      obtain ⟨s, hs, hle⟩ := Sqlite.exists_before hnow hdue hlimit
      exact ⟨s, hs, hsqlite s hs hle (of_decide_eq_true hkind.symm)⟩
  obtain ⟨s, hs, hbefore⟩ := hfirst
  obtain ⟨hget, hstatus, hrunning⟩ := htaken s hs
  exact ⟨m, s, _, by omega, hget, hstatus, hrunning, rfl, hbefore⟩

/-- After the clock has gone past a time, the jobs to run until then are those that there were. -/
theorem Forever.known_of_runAt_le (h : Forever codec backend q a) {s : ℤ}
    (hafter : ∀ j, n ≤ j → (a j).After backend s) {j : ℕ} (hj : n ≤ j) {r : JobRow}
    (hr : (q j).jobs.get? id = some r) (hle : r.runAt ≤ s) : id < (q n).jobs.nextId := by
  induction j, hj using Nat.le_induction generalizing r with
  | base => exact Jobs.id_lt_of_get? hr
  | succ j hj ih =>
    rcases runAt_act (h.inv j).1 (h.act j) (hafter j hj) hr with ⟨r', hr', hsame⟩ | hlater
    · exact ih hr' (hsame.trans_le hle)
    · exact absurd hle (not_le.mpr hlater)

/-- No job stays pending for ever. -/
theorem Forever.not_starved (h : Forever codec backend q a) (hfair : Fair backend q a)
    (hcalm : ∀ i, n ≤ i → (q i).Calm backend (a i)) {r : JobRow} (hstatus : r.status = .pending)
    (hpending : ∀ j, n ≤ j → (q j).jobs.get? r.id = some r) : False := by
  -- from here on every job that is to be fetched before this one is in the table
  have hknown : ∃ m, n ≤ m ∧ ∀ j, m ≤ j → ∀ s, (q j).jobs.get? s.id = some s →
      (backend = .pg → s.runAt ≤ r.runAt) → (backend = .sqlite → s.id ≤ r.id) →
        s.id < (q m).jobs.nextId := by
    cases backend with
    | sqlite =>
      exact ⟨n, le_refl n, fun j hj s hs _ hle =>
        lt_of_le_of_lt (hle rfl) (Jobs.id_lt_of_get? (hpending n (le_refl n)))⟩
    | pg =>
      rcases hfair.later rfl n r.id r (hpending n (le_refl n)) hstatus with ⟨j, hj, hne⟩ | ⟨m, hm⟩
      · exact absurd (hpending j hj) hne
      · refine ⟨max n m, le_max_left n m, fun j hj s hs hle _ => ?_⟩
        have hafter := fun k hk => hm k (le_trans (le_max_right n m) hk)
        exact h.known_of_runAt_le hafter hj hs (hle rfl)
  obtain ⟨m, hnm, hknown⟩ := hknown
  obtain ⟨k, hmk, hstill⟩ := h.exists_still fun i hi => hcalm i (le_trans hnm hi)
  rcases hfair.seen k r.id r (hpending k (by omega)) hstatus with ⟨j, hj, hne⟩ | hseen
  · exact hne (hpending j (by omega))
  · -- but the next fetch takes one of them
    obtain ⟨l, s, s', hkl, hs, hs₀, hs', hs₁, hpg, hsqlite⟩ :=
      h.taken_of_seen (fun j hj => hpending j (by omega)) hseen
    have hid := hknown l (by omega) s hs hpg hsqlite
    have hchange := h.change (hcalm l (by omega)) (Jobs.id_lt_of_get? hs)
    exact (hchange.weight_lt hs hs₀ hs' hs₁).ne (hstill l hkl s.id hid)

/-- A job that is finished stays so, or is deleted. -/
theorem Forever.finished_mono (h : Forever codec backend q a)
    (hcalm : ∀ i, n ≤ i → (q i).Calm backend (a i)) (hid : id < (q n).jobs.nextId)
    (hfinished : ∀ r, (q n).jobs.get? id = some r → r.status.finished = true) {j : ℕ}
    (hj : n ≤ j) : ∀ r, (q j).jobs.get? id = some r → r.status.finished = true := by
  induction j, hj using Nat.le_induction with
  | base => exact hfinished
  | succ j hj ih =>
    intro r hr
    have hchange := h.change (hcalm j hj) (lt_of_lt_of_le hid (h.nextId_mono hj))
    have hview : (q (j + 1)).view id = (some r, (q (j + 1)).attended id) := Prod.ext hr rfl
    have hbefore : ∀ s b, (q j).view id = (some s, b) → s.status.finished = true :=
      fun s b hs => ih s (congrArg Prod.fst hs)
    rw [hview] at hchange
    generalize (q (j + 1)).attended id = attended at hchange
    generalize hx : (q j).view id = x at hchange
    cases hchange with
    | same => exact hbefore r _ hx
    | claimed s lockBy now hs =>
      have := hbefore s _ hx
      rw [hs] at this
      cases this
    | completed s outcome f hs hf =>
      have := hbefore s _ hx
      rw [hs] at this
      cases this
    | reopened s hs =>
      have := hbefore s _ hx
      rw [hs] at this
      cases this

end Runs

/-- A sweep that finds nothing changes nothing. -/
theorem sweep_idle {codec : Codec} {q : Queue} {now t : ℤ} {options : WorkerOptions}
    (ht : Backend.olderThan now options = .ok t)
    (hnone : ∀ r ∈ q.jobs.rows, r.isOrphaned t = false) (hfree : q.exclusive = false) :
    q.act codec .pg (.sweep now options) = some q := by
  have hids : (q.jobs.rows.filter (JobRow.isOrphaned t)).map JobRow.id = [] := by
    rw [List.filter_eq_nil_iff.mpr fun r hr => by simp [hnone r hr]]
    rfl
  have hadmits : q.admits [] = true := Queue.admits_iff.mpr ⟨hfree, fun id hid => by cases hid⟩
  have hjobs : (Pg.reenqueueOrphaned t q.jobs).1 = q.jobs := by
    rw [Pg.reenqueueOrphaned, Pg.timestamp]
    split
    · rw [Jobs.orStop_ok]
      exact (update_congr hnone).trans update_of_false
    · rfl
  simp only [Queue.act, Queue.sweep, ht, Queue.orStop_ok, hids, hadmits, if_true,
    Backend.reenqueueOrphaned, hjobs]

def Action.isSweep : Action → Bool
  | .sweep _ _ => true
  | _ => false

/-- A job whose worker crashes before it calls the handler; it is put back, fails, and succeeds. -/
def crashAndRetry : List Action :=
  [.enqueue 50 "report" "1" 0 1, .fetch ⟨"report", 1, "local-worker", 100⟩ [], .commit 0, .lose 0,
    .sweep 700000 .default, .fetch ⟨"report", 1, "local-worker", 700001⟩ [], .commit 1, .handle 1,
    .finish 1 700010 (.error "unreachable") .default,
    .fetch ⟨"report", 1, "local-worker", 702000⟩ [], .commit 2, .handle 2,
    .finish 2 702010 (.ok ()) .default]

/-- And then sweeps for ever. -/
def crashAndRetryAction (i : ℕ) : Action :=
  (crashAndRetry[i]?).getD (.sweep 702020 .default)

def crashAndRetryRun : ℕ → Queue
  | 0 => .init
  | i + 1 =>
    ((crashAndRetryRun i).act .lenient .pg (crashAndRetryAction i)).getD (crashAndRetryRun i)

theorem crashAndRetryAction_of_le {i : ℕ} (hi : 13 ≤ i) :
    crashAndRetryAction i = .sweep 702020 .default := by
  rw [crashAndRetryAction, List.getElem?_eq_none hi]
  rfl

theorem crashAndRetry_idle : (crashAndRetryRun 13).act .lenient .pg (.sweep 702020 .default) =
    some (crashAndRetryRun 13) :=
  sweep_idle (t := 102020) (by decide +kernel) (by decide +kernel) (by decide +kernel)

theorem crashAndRetryRun_of_le {i : ℕ} (hi : 13 ≤ i) :
    crashAndRetryRun i = crashAndRetryRun 13 := by
  induction i, hi using Nat.le_induction with
  | base => rfl
  | succ i hi ih =>
    rw [crashAndRetryRun, crashAndRetryAction_of_le hi, ih, crashAndRetry_idle]
    rfl

theorem crashAndRetry_forever : Forever .lenient .pg crashAndRetryRun crashAndRetryAction where
  init := rfl
  act i := by
    rcases Nat.lt_or_ge i 13 with hi | hi
    · have hsome : ((crashAndRetryRun i).act .lenient .pg (crashAndRetryAction i)).isSome := by
        revert i
        decide +kernel
      obtain ⟨q, hq⟩ := Option.isSome_iff_exists.mp hsome
      rw [crashAndRetryRun, hq]
      rfl
    · rw [crashAndRetryRun_of_le (show 13 ≤ i + 1 by omega), crashAndRetryRun_of_le hi,
        crashAndRetryAction_of_le hi]
      exact crashAndRetry_idle
  readable i := by
    cases crashAndRetryAction i <;> trivial
  unattended i now options t ha ht id r hr horphaned := by
    have hsweeps : ∀ i < 13, (crashAndRetryAction i).isSweep = true →
        ∀ u ∈ (crashAndRetryRun i).tasks, ¬u.Live := by
      decide +kernel
    have hended : ∀ u ∈ (crashAndRetryRun i).tasks, ¬u.Live := by
      rcases Nat.lt_or_ge i 13 with hi | hi
      · exact hsweeps i hi (ha ▸ rfl)
      · rw [crashAndRetryRun_of_le hi]
        decide +kernel
    exact Queue.attended_eq_false_iff.mpr fun k u hu _ => hended u (List.mem_of_getElem? hu)

theorem crashAndRetry_fair : Fair .pg crashAndRetryRun crashAndRetryAction := by
  have hlast : ∀ i, ∃ j, i ≤ j ∧ crashAndRetryRun j = crashAndRetryRun 13 := fun i =>
    ⟨max i 13, le_max_left i 13, crashAndRetryRun_of_le (le_max_right i 13)⟩
  have hrows : ∀ r ∈ (crashAndRetryRun 13).jobs.rows, r.status = .done := by decide +kernel
  have htasks : ∀ u ∈ (crashAndRetryRun 13).tasks, ¬u.Live := by decide +kernel
  have hover : ∀ i id (r : JobRow), r.status ≠ .done →
      ∃ j, i ≤ j ∧ (crashAndRetryRun j).jobs.get? id ≠ some r := by
    intro i id r hr
    obtain ⟨j, hj, heq⟩ := hlast i
    exact ⟨j, hj, fun hget => hr (hrows r (Table.mem_of_get? (heq ▸ hget)))⟩
  constructor
  · refine ⟨13, fun i hi => ?_⟩
    rw [crashAndRetryAction_of_le hi]
    exact ⟨fun k t h => (by cases h), fun k now outcome options t h => by cases h⟩
  · intro i k t _
    obtain ⟨j, hj, heq⟩ := hlast i
    exact ⟨j, hj, fun u hu => htasks u (List.mem_of_getElem? (heq ▸ hu))⟩
  · intro i id r _ hpending
    exact .inl (hover i id r (by rw [hpending]; decide))
  · intro i id r _ hrunning
    obtain ⟨j, hj, hne⟩ := hover i id r (by rw [hrunning]; decide)
    exact .inl ⟨j, hj, fun hview => hne (congrArg Prod.fst hview)⟩
  · intro _ i id r _ hpending
    exact .inl (hover i id r (by rw [hpending]; decide))

end Slab.JobQueue
