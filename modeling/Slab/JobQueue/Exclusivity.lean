import Slab.JobQueue.Effect

/-!
# One fetcher for each claim, and no job lost

A job becomes running only when a fetch commits, and that fetch hands it out once, not before its
time. A job that has been enqueued stays in the table until the cleaning deletes it, which it does
only after the job has finished.

## Main definitions

- `Queue.Claims` — a step takes a job from pending to running
- `Queue.ClaimedOnce` — what that step hands out
- `Queue.Kept` — where the jobs are that have been enqueued

## Main results

- `claimed_once_of_run` — every step of every run, in both backends
-/

namespace Slab.JobQueue

open Txn

/-- The payloads that producers enqueue are JSON texts that the library reads back. -/
def Action.Readable (codec : Codec) : Action → Prop
  | .enqueue _ _ payload _ _ => codec.parses payload = true
  | _ => True

namespace Queue

/-- From `q` to `q'` the job `id` goes from pending to running. -/
def Claims (q q' : Queue) (id : ℕ) : Prop :=
  (∃ r, q.jobs.get? id = some r ∧ r.status = .pending) ∧
    ∃ r, q'.jobs.get? id = some r ∧ r.status = .running

/-- A step hands each job that it takes from pending to running to one fetch, once and not before
its time, and it hands out no others. -/
structure ClaimedOnce (q : Queue) (a : Action) (q' : Queue) : Prop where
  handedOut : ∀ id, q.Claims q' id → ∃ i o r new, a = .commit i ∧ q.fetch? i = some o ∧
    q.jobs.get? id = some r ∧ r.jobType = o.call.jobType ∧ r.runAt ≤ o.call.now ∧
    q'.tasks = q.tasks ++ new ∧
    (new.filter fun t => t.id = id) = [Task.spawn i o.call.jobType .waiting r]
  claimed : ∀ k t, q.tasks.length ≤ k → q'.tasks[k]? = some t → q.Claims q' t.id

/-- Every job that has been enqueued is in the table, or it was finished when it was deleted. -/
structure Kept (codec : Codec) (q : Queue) : Prop where
  readable : ∀ id r, q.jobs.get? id = some r → codec.parses r.payload = true
  finished : ∀ r ∈ q.deleted, r.status.finished = true
  enqueued : ∀ e ∈ q.enqueued,
    (∃ r, q.jobs.get? e.1 = some r) ∨ ∃ r ∈ q.deleted, r.id = e.1

theorem kept_init {codec : Codec} : init.Kept codec where
  readable id r h := by cases h
  finished r h := absurd h List.not_mem_nil
  enqueued e h := absurd h List.not_mem_nil

end Queue

section Step

variable {codec : Codec} {backend : Backend} {q q' : Queue} {a : Action}

/-- A row of the table is still there after the step, or it was finished and is deleted. -/
theorem Effect.stays (he : Effect codec q a q') {id : ℕ} {r : JobRow}
    (h : q.jobs.get? id = some r) :
    (∃ r', q'.jobs.get? id = some r' ∧ r'.payload = r.payload) ∨
      (∃ now days pick, a = .deleteBatch now days pick) ∧ r.status.finished = true ∧
        q'.jobs.get? id = none := by
  have hrow := he.row id
  rw [h] at hrow
  generalize hafter : q'.jobs.get? id = after at hrow ⊢
  cases hrow with
  | same => exact .inl ⟨r, rfl, rfl⟩
  | claimed i o r hopen hdue => exact .inl ⟨_, rfl, rfl⟩
  | completed k now outcome options t f r ht hstage hid hf =>
    refine .inl ⟨_, rfl, ?_⟩
    cases hf <;> rfl
  | reopened now options t r ht horphaned => exact .inl ⟨_, rfl, rfl⟩
  | deleted now days pick r hid hfinished => exact .inr ⟨⟨now, days, pick, rfl⟩, hfinished, rfl⟩

theorem Effect.deleted_subset (he : Effect codec q a q') : q.deleted ⊆ q'.deleted := by
  cases he with
  | deleteBatch => exact List.subset_append_left _ _
  | _ => exact List.Subset.refl _

theorem Effect.deleted_finished (he : Effect codec q a q')
    (h : ∀ r ∈ q.deleted, r.status.finished = true) :
    ∀ r ∈ q'.deleted, r.status.finished = true := by
  cases he with
  | deleteBatch now days pick hfree hpick =>
    intro r hr
    rcases List.mem_append.mp hr with hr | hr
    · exact h r hr
    · obtain ⟨hr, hid⟩ := List.mem_filter.mp hr
      obtain ⟨s, hs, hfinished⟩ := hpick r.id (List.contains_iff_mem.mp hid)
      have hget : q.jobs.get? r.id = some r := Table.get?_of_mem hr
      rw [hget] at hs
      cases hs
      exact hfinished
  | _ => exact h

/-- A row that goes is recorded. -/
theorem Effect.mem_deleted (he : Effect codec q a q') {id : ℕ} {r : JobRow}
    (hget : q.jobs.get? id = some r) (hnone : q'.jobs.get? id = none) : r ∈ q'.deleted := by
  have hrow := he.row id
  rw [hget, hnone] at hrow
  cases hrow with
  | deleted now days pick _ hid hfinished =>
    cases he with
    | failed =>
      rw [hget] at hnone
      cases hnone
    | fetching _ _ ha => cases ha
    | deleteBatch =>
      obtain ⟨hr, hrid⟩ := Table.get?_eq_some.mp hget
      refine List.mem_append_right _ (List.mem_filter.mpr ⟨hr, ?_⟩)
      exact List.contains_iff_mem.mpr (hrid ▸ hid)

/-- Only an enqueue adds to the ids that are accounted for, and it inserts the row. -/
theorem Effect.enqueued_cases (he : Effect codec q a q') {e : ℕ × ℕ} (h : e ∈ q'.enqueued) :
    e ∈ q.enqueued ∨ ∃ r, q'.jobs.get? e.1 = some r := by
  cases he with
  | enqueue now jobType payload delay retries runAt hfree =>
    refine (List.mem_append.mp h).imp_right fun h => ?_
    rw [List.mem_singleton.mp h]
    exact ⟨_, Jobs.get?_insert.trans (if_pos rfl)⟩
  | _ => exact .inl h

/-- Nothing that has been enqueued is lost. -/
theorem kept_act (h : q.Kept codec) (he : Effect codec q a q') (ha : a.Readable codec) :
    q'.Kept codec where
  readable id r' hr' := by
    cases hget : q.jobs.get? id with
    | some r =>
      rcases he.stays hget with ⟨r'', hr'', hpayload⟩ | ⟨-, -, hnone⟩
      · rw [hr'] at hr''
        cases hr''
        exact hpayload ▸ h.readable id r hget
      · rw [hnone] at hr'
        cases hr'
    | none =>
      have hrow := he.row id
      rw [hget, hr'] at hrow
      cases hrow with
      | created now jobType payload delay retries runAt hid => exact ha
  finished := he.deleted_finished h.finished
  enqueued e hmem := by
    rcases he.enqueued_cases hmem with hold | hnew
    · rcases h.enqueued e hold with ⟨r, hr⟩ | ⟨r, hr, hid⟩
      · cases hafter : q'.jobs.get? e.1 with
        | some r' => exact .inl ⟨r', rfl⟩
        | none => exact .inr ⟨r, he.mem_deleted hr hafter, Table.key_of_get? hr⟩
      · exact .inr ⟨r, he.deleted_subset hr, hid⟩
    · exact .inl hnew

/-- The tasks that a step adds are those of a fetch that commits. -/
theorem Effect.tasks_of_not_commit (he : Effect codec q a q') (ha : ∀ i, a ≠ .commit i) :
    q'.tasks.length = q.tasks.length := by
  cases he with
  | claim i => exact absurd rfl (ha i)
  | handle => exact List.length_set
  | finish => exact List.length_set
  | lose => exact List.length_set
  | _ => rfl

/-- No other step makes a pending job run. -/
theorem Effect.commit_of_claims (he : Effect codec q a q') {id : ℕ} (h : q.Claims q' id) :
    ∃ i, a = .commit i := by
  obtain ⟨⟨r, hr, hpending⟩, r', hr', hrunning⟩ := h
  have hrow := he.row id
  rw [hr, hr'] at hrow
  cases hrow with
  | same => exact absurd (hpending.symm.trans hrunning) nofun
  | claimed i => exact ⟨i, rfl⟩
  | completed k now outcome options t f _ ht hstage hid hf => cases hf <;> cases hrunning
  | reopened => cases hrunning

/-- The jobs that a step takes are handed out once, to the fetch that commits. -/
theorem handedOut_act (h : q.Kept codec) (he : Effect codec q a q') {id : ℕ}
    (hclaims : q.Claims q' id) : ∃ i o r new, a = .commit i ∧ q.fetch? i = some o ∧
      q.jobs.get? id = some r ∧ r.jobType = o.call.jobType ∧ r.runAt ≤ o.call.now ∧
      q'.tasks = q.tasks ++ new ∧
      (new.filter fun t => t.id = id) = [Task.spawn i o.call.jobType .waiting r] := by
  obtain ⟨i, rfl⟩ := he.commit_of_claims hclaims
  obtain ⟨⟨r, hr, hpending⟩, r', hr', hrunning⟩ := hclaims
  cases he with
  | failed =>
    rw [hr] at hr'
    cases hr'
    exact absurd (hpending.symm.trans hrunning) nofun
  | fetching _ _ ha => cases ha
  | claim i o rows fetches hopen hnodup hrows =>
    have hafter := hr'
    change (Pg.markRunning o.call (rows.map JobRow.id) q.jobs).get? id = some r' at hafter
    rw [get?_markRunning, hr, Option.map_some] at hafter
    have hid : id ∈ rows.map JobRow.id := by
      by_contra hid
      rw [if_neg hid] at hafter
      cases hafter
      rw [hpending] at hrunning
      cases hrunning
    obtain ⟨s, hs, rfl⟩ := List.mem_map.mp hid
    obtain ⟨hget, hdue⟩ := hrows s hs
    have hsr : r = s := Option.some_inj.mp (hr.symm.trans hget)
    subst hsr
    obtain ⟨htype, -, hrunAt⟩ := JobRow.isDue_iff.mp hdue
    have hall : (rows.all fun r => codec.parses r.payload) = true :=
      List.all_eq_true.mpr fun s hs => h.readable s.id s (hrows s hs).1
    refine ⟨i, o, r, _, rfl, hopen, hr, htype, hrunAt, rfl, ?_⟩
    rw [if_pos hall]
    exact filter_spawn hnodup hs

/-- A task is added only where its job goes from pending to running. -/
theorem claimed_act (he : Effect codec q a q') {k : ℕ} {t : Task} (hk : q.tasks.length ≤ k)
    (ht : q'.tasks[k]? = some t) : q.Claims q' t.id := by
  have hlt : k < q'.tasks.length := (List.getElem?_eq_some_iff.mp ht).1
  cases he with
  | claim i o rows fetches hopen hnodup hrows =>
    rw [List.getElem?_append_right hk, List.getElem?_map, Option.map_eq_some_iff] at ht
    obtain ⟨r, hr, rfl⟩ := ht
    obtain ⟨hget, hdue⟩ := hrows r (List.mem_of_getElem? hr)
    refine ⟨⟨r, hget, (JobRow.isDue_iff.mp hdue).2.1⟩,
      r.markRunning o.call.lockBy o.call.now, ?_, rfl⟩
    have hid : r.id ∈ rows.map JobRow.id := List.mem_map_of_mem (List.mem_of_getElem? hr)
    show (Pg.markRunning o.call (rows.map JobRow.id) q.jobs).get? r.id = _
    rw [get?_markRunning, hget, Option.map_some, if_pos hid]
  | handle k' t' => exact absurd (List.length_set ▸ hlt) (Nat.not_lt.mpr hk)
  | finish k' now outcome options t' => exact absurd (List.length_set ▸ hlt) (Nat.not_lt.mpr hk)
  | lose k' t' => exact absurd (List.length_set ▸ hlt) (Nat.not_lt.mpr hk)
  | _ => exact absurd hlt (Nat.not_lt.mpr hk)

end Step

/-- In every run, whatever the backend and however many fetches are open, each step that takes a
job from pending to running hands it to one fetch, once and not before its time; and every job that
has been enqueued is in the table unless it has been deleted, which finished jobs alone are. -/
theorem claimed_once_of_run {codec : Codec} {backend : Backend} {q q' : Queue} {a : Action}
    (hrun : Machine.Run (Queue.act codec backend) (fun _ a => a.Readable codec) .init q)
    (hact : q.act codec backend a = some q') (ha : a.Readable codec) :
    q.ClaimedOnce a q' ∧ q'.Kept codec ∧
      ∀ id r, q.jobs.get? id = some r → (∃ r', q'.jobs.get? id = some r') ∨
        (∃ now days pick, a = .deleteBatch now days pick) ∧ r.status.finished = true := by
  have hinv : q.Fetching backend ∧ q.Kept codec := by
    refine hrun.invariant (P := fun q => q.Fetching backend ∧ q.Kept codec)
      ⟨Queue.fetching_init, Queue.kept_init⟩ ?_
    rintro q a q' ⟨hfetching, hkept⟩ ha hact
    exact ⟨fetching_act hfetching hact, kept_act hkept (effect_act hfetching hact) ha⟩
  obtain ⟨hfetching, hkept⟩ := hinv
  have he := effect_act hfetching hact
  refine ⟨⟨fun id => handedOut_act hkept he, fun k t => claimed_act he⟩, kept_act hkept he ha, ?_⟩
  intro id r hr
  refine (he.stays hr).imp ?_ ?_
  · rintro ⟨r', hr', -⟩
    exact ⟨r', hr'⟩
  · rintro ⟨hdelete, hfinished, -⟩
    exact ⟨hdelete, hfinished⟩

/-- The test that decides `Readable`. -/
def Action.readable (codec : Codec) : Action → Bool
  | .enqueue _ _ payload _ _ => codec.parses payload
  | _ => true

theorem Action.readable_of_test {codec : Codec} {a : Action} (h : a.readable codec = true) :
    a.Readable codec := by
  cases a with
  | enqueue => exact h
  | _ => trivial

/-- Two jobs and two fetches of Postgres that are open at the same time. -/
theorem claimed_once_of_run_twoFetchers :
    ∃ q q', Machine.Run (Queue.act .lenient .pg) (fun _ a => a.Readable .lenient) .init q ∧
      q.act .lenient .pg (.commit 1) = some q' ∧ q.ClaimedOnce (.commit 1) q' ∧
      q'.tasks.map Task.id = [1, 2] := by
  have hplay : ((Machine.play (Queue.act .lenient .pg) (fun _ a => a.readable .lenient) .init
      [.enqueue 50 "report" "1" 0 3, .enqueue 60 "report" "2" 0 3,
        .fetch ⟨"report", 1, "local-worker", 100⟩ [], .fetch ⟨"report", 5, "local-worker", 100⟩ [],
        .commit 0]).bind fun q => (q.act .lenient .pg (.commit 1)).map fun q' =>
          q'.tasks.map Task.id) = some [1, 2] := by
    decide +kernel
  obtain ⟨q, hq, hact⟩ := Option.bind_eq_some_iff.mp hplay
  obtain ⟨q', hact, htasks⟩ := Option.map_eq_some_iff.mp hact
  have hrun : Machine.Run (Queue.act .lenient .pg) (fun _ a => a.Readable .lenient) .init q :=
    Machine.Run.of_play (fun _ _ => Action.readable_of_test) .refl hq
  exact ⟨q, q', hrun, hact, (claimed_once_of_run hrun hact trivial).1, htasks⟩

end Slab.JobQueue
