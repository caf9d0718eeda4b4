import Slab.JobQueue.Equivalence
import Slab.Txn.Machine

/-!
# Deleting finished jobs in batches

`delete_finished_older_than` deletes at most `GC_BATCH` rows at a time, whichever the database finds
first, and stops after a batch that was not full. Between two batches other jobs may complete.
However the batches turn out, all of them together are one `DELETE` of the expired rows.

## Main definitions

- `Picks` — the rows that a batch may pick
- `Completion` — a job that completes between two batches
- `Sweep`, `Sweep.act` — the loop, batch by batch
- `Sweeping` — where the loop stands after some turns

## Main results

- `sweeping_of_play` — the invariant of the loop
- `sweep_exact` — what is left when the loop stops, what it returns, and that it stops
-/

namespace Slab.JobQueue

open Txn

/-- The rows that are to be deleted. -/
def Jobs.expired (cutoff : ℤ) (v : Jobs) : List JobRow := v.rows.filter (JobRow.isExpired cutoff)

/-- `SELECT id … LIMIT GC_BATCH`: some of the rows, as many as there are up to the limit. -/
def Picks (cutoff : ℤ) (v : Jobs) (picked : List JobRow) : Prop :=
  picked.Nodup ∧ (∀ r ∈ picked, r ∈ v.expired cutoff) ∧
    picked.length = min gcBatch (v.expired cutoff).length

instance (cutoff : ℤ) (v : Jobs) (picked : List JobRow) : Decidable (Picks cutoff v picked) :=
  inferInstanceAs (Decidable (_ ∧ _ ∧ _))

/-- A worker's `mark_done` or `mark_failed`, the latter with the attempts and the error. -/
structure Completion where
  id : ℕ
  now : ℤ
  failure : Option (ℤ × String)

namespace Completion

def complete (c : Completion) (r : JobRow) : JobRow :=
  match c.failure with
  | none => r.markDone c.now
  | some (attempts, lastError) => r.markFailed attempts c.now lastError

theorem complete_id (c : Completion) (r : JobRow) : (c.complete r).id = r.id := by
  unfold complete
  split <;> rfl

def execute (c : Completion) (v : Jobs) : Jobs :=
  v.update (fun r => r.id = c.id) c.complete c.complete_id

/-- The job completes at the cutoff or later. -/
theorem complete_not_expired {c : Completion} {cutoff : ℤ} (h : cutoff ≤ c.now) (r : JobRow) :
    (c.complete r).isExpired cutoff = false := by
  unfold complete
  split <;> simp [JobRow.isExpired, JobRow.markDone, JobRow.markFailed, h]

end Completion

/-- The loop: the table, the rows deleted so far, and whether it goes on. -/
structure Sweep where
  jobs : Jobs
  deleted : ℕ
  running : Bool

inductive Turn where
  | batch (picked : List JobRow)
  | complete (c : Completion)

def Turn.isBatch : Turn → Bool
  | batch _ => true
  | complete _ => false

/-- What the other sessions do to the table. -/
def Turn.execute : Turn → Jobs → Jobs
  | batch _, v => v
  | complete c, v => c.execute v

/-- The table as it would be without the loop. -/
def completed (turns : List Turn) (v : Jobs) : Jobs := turns.foldl (fun v turn => turn.execute v) v

def batches (turns : List Turn) : ℕ := turns.countP Turn.isBatch

namespace Sweep

def start (v : Jobs) : Sweep := ⟨v, 0, true⟩

/-- A batch while the loop goes on, or the completion of a job. -/
def act (cutoff : ℤ) : Machine Sweep Turn := fun s turn =>
  match turn with
  | .batch picked =>
    if s.running = true ∧ Picks cutoff s.jobs picked then
      some
        { jobs := s.jobs.delete (picked.map JobRow.id)
          deleted := s.deleted + picked.length
          running := !decide (picked.length < gcBatch) }
    else none
  | .complete c => some { s with jobs := c.execute s.jobs }

/-- The job that completes is another one than those to be deleted, and it completes at the cutoff
or later. -/
def apart (cutoff : ℤ) (s : Sweep) : Turn → Bool
  | .batch _ => true
  | .complete c => decide (cutoff ≤ c.now) && (s.jobs.get? c.id).any fun r => !r.isExpired cutoff

end Sweep

variable {cutoff : ℤ} {v w : Jobs} {picked : List JobRow} {c : Completion} {turns : List Turn}
  {s : Sweep}

/-! ## Batches -/

theorem rows_delete_of_mem (h : ∀ r ∈ picked, r ∈ v.rows) :
    (v.delete (picked.map JobRow.id)).rows = v.rows.filter fun r => decide (r ∉ picked) := by
  apply List.filter_congr
  intro r hr
  have hiff : r.id ∈ picked.map JobRow.id ↔ r ∈ picked := by
    refine ⟨fun hid => ?_, List.mem_map_of_mem⟩
    obtain ⟨s, hs, hid⟩ := List.mem_map.mp hid
    exact List.inj_on_of_nodup_map v.table.nodup (h s hs) hr hid ▸ hs
  by_cases hmem : r ∈ picked
  · simp [hmem, hiff.mpr hmem]
  · have hid : r.id ∉ picked.map JobRow.id := mt hiff.mp hmem
    simp [hmem, hid]

theorem Picks.rows (h : Picks cutoff v picked) : ∀ r ∈ picked, r ∈ v.rows :=
  fun r hr => (List.mem_filter.mp (h.2.1 r hr)).1

theorem Picks.expired (h : Picks cutoff v picked) : ∀ r ∈ picked, r.isExpired cutoff = true :=
  fun r hr => (List.mem_filter.mp (h.2.1 r hr)).2

/-- What a batch deletes is no longer there, and nothing else is gone. -/
theorem Picks.length_expired (h : Picks cutoff v picked) :
    picked.length + ((v.delete (picked.map JobRow.id)).expired cutoff).length =
      (v.expired cutoff).length := by
  have hnodup : (v.expired cutoff).Nodup := (List.Nodup.of_map _ v.table.nodup).filter _
  -- the picked rows, as the part of the expired ones that they are
  have hperm : ((v.expired cutoff).filter fun r => decide (r ∈ picked)).Perm picked := by
    apply (List.perm_ext_iff_of_nodup (hnodup.filter _) h.1).mpr
    intro r
    rw [List.mem_filter, decide_eq_true_eq]
    exact ⟨fun hr => hr.2, fun hr => ⟨h.2.1 r hr, hr⟩⟩
  have hrest : (v.delete (picked.map JobRow.id)).expired cutoff =
      (v.expired cutoff).filter fun r => !decide (r ∈ picked) := by
    rw [Jobs.expired, rows_delete_of_mem h.rows, Jobs.expired, List.filter_filter,
      List.filter_filter]
    apply List.filter_congr
    intro r _
    rw [Bool.and_comm, decide_not]
  rw [hrest, ← hperm.length_eq]
  exact (List.length_eq_length_filter_add _).symm

theorem Picks.withoutExpired (h : Picks cutoff v picked) :
    (v.delete (picked.map JobRow.id)).withoutExpired cutoff = v.withoutExpired cutoff := by
  refine Jobs.ext (Table.ext ?_) rfl
  show ((v.delete (picked.map JobRow.id)).rows.filter fun r => !r.isExpired cutoff) =
    v.rows.filter fun r => !r.isExpired cutoff
  rw [rows_delete_of_mem h.rows, List.filter_filter]
  apply List.filter_congr
  intro r _
  by_cases hr : r ∈ picked
  · simp [h.expired r hr]
  · simp [hr]

theorem withoutExpired_of_nil (h : v.expired cutoff = []) : v.withoutExpired cutoff = v :=
  withoutExpired_of_none fun r hr => by
    have hnot := List.filter_eq_nil_iff.mp h r hr
    exact Bool.eq_false_iff.mpr hnot

/-! ## Completions -/

/-- The row of the job, if there is one, is not to be deleted. -/
def Spares (cutoff : ℤ) (c : Completion) (v : Jobs) : Prop :=
  cutoff ≤ c.now ∧ ∀ r ∈ v.rows, r.id = c.id → r.isExpired cutoff = false

theorem Spares.isExpired_eq (h : Spares cutoff c v) {r : JobRow} (hr : r ∈ v.rows) :
    (if r.id = c.id then c.complete r else r).isExpired cutoff = r.isExpired cutoff := by
  split
  · next hid => rw [Completion.complete_not_expired h.1, h.2 r hr hid]
  · rfl

theorem Spares.expired (h : Spares cutoff c v) :
    (c.execute v).expired cutoff = v.expired cutoff := by
  have hfixed : ∀ rows : List JobRow, (∀ r ∈ rows, r ∈ v.rows) →
      (rows.map fun r => if r.id = c.id then c.complete r else r).filter
        (JobRow.isExpired cutoff) = rows.filter (JobRow.isExpired cutoff) := by
    intro rows hrows
    induction rows with
    | nil => rfl
    | cons r rows ih =>
      have hr := hrows r List.mem_cons_self
      rw [List.map_cons, List.filter_cons, List.filter_cons, h.isExpired_eq hr,
        ih fun t ht => hrows t (List.mem_cons_of_mem r ht)]
      split
      · next hexpired =>
        have hid : r.id ≠ c.id := fun hid => by
          rw [h.2 r hr hid] at hexpired
          cases hexpired
        rw [if_neg hid]
      · rfl
  have hrows : (c.execute v).rows =
      v.rows.map fun r => if r.id = c.id then c.complete r else r := by
    show (v.rows.map fun r => if decide (r.id = c.id) = true then c.complete r else r) = _
    simp only [decide_eq_true_eq]
  rw [Jobs.expired, hrows]
  exact hfixed v.rows fun r hr => hr

theorem Spares.withoutExpired (h : Spares cutoff c v) :
    (c.execute v).withoutExpired cutoff = c.execute (v.withoutExpired cutoff) := by
  refine Jobs.ext (Table.ext ?_) rfl
  show ((v.rows.map fun r => if decide (r.id = c.id) = true then c.complete r else r).filter
      fun r => !r.isExpired cutoff) =
    (v.rows.filter fun r => !r.isExpired cutoff).map fun r =>
      if decide (r.id = c.id) = true then c.complete r else r
  rw [List.filter_map]
  congr 1
  apply List.filter_congr
  intro r hr
  have heq := h.isExpired_eq hr
  simp only [Function.comp_apply, decide_eq_true_eq, heq]

theorem spares_of_apart (h : s.apart cutoff (.complete c) = true) : Spares cutoff c s.jobs := by
  simp only [Sweep.apart, Bool.and_eq_true, decide_eq_true_eq] at h
  obtain ⟨hnow, hrow⟩ := h
  refine ⟨hnow, fun r hr hid => ?_⟩
  have hget : s.jobs.get? c.id = some r := Table.get?_eq_some.mpr ⟨hr, hid⟩
  rw [hget] at hrow
  simpa using hrow

/-- The job is the same in a table that differs only in rows to be deleted. -/
theorem spares_of_same (h : s.apart cutoff (.complete c) = true)
    (hsame : s.jobs.withoutExpired cutoff = w.withoutExpired cutoff) : Spares cutoff c w := by
  simp only [Sweep.apart, Bool.and_eq_true, decide_eq_true_eq, Option.any_eq_true] at h
  obtain ⟨hnow, r, hget, hr⟩ := h
  obtain ⟨hmem, hid⟩ := Table.get?_eq_some.mp hget
  have hboth : r ∈ (w.withoutExpired cutoff).rows := by
    rw [← hsame]
    exact List.mem_filter.mpr ⟨hmem, hr⟩
  have hw : r ∈ w.rows := (List.mem_filter.mp hboth).1
  refine ⟨hnow, fun t ht htid => ?_⟩
  rw [List.inj_on_of_nodup_map w.table.nodup ht hw (htid.trans hid.symm)]
  simpa using hr

/-! ## The loop -/

/-- After some turns: the rows that are not to be deleted are as without the loop, and the others
are counted until they are gone. Full batches go on, and the first one that is not full is the
last. -/
structure Sweeping (cutoff : ℤ) (v : Jobs) (turns : List Turn) (s : Sweep) : Prop where
  same : s.jobs.withoutExpired cutoff = (completed turns v).withoutExpired cutoff
  count : s.deleted + (s.jobs.expired cutoff).length = (v.expired cutoff).length
  full : s.running = true → s.deleted = gcBatch * batches turns
  stopped : s.running = false →
    s.jobs.expired cutoff = [] ∧ batches turns = s.deleted / gcBatch + 1

theorem sweeping_start (cutoff : ℤ) (v : Jobs) : Sweeping cutoff v [] (.start v) where
  same := rfl
  count := Nat.zero_add _
  full _ := rfl
  stopped h := by cases h

theorem Sweeping.batch (h : Sweeping cutoff v turns s) (hrunning : s.running = true)
    (hpicks : Picks cutoff s.jobs picked) : Sweeping cutoff v (turns ++ [.batch picked])
      { jobs := s.jobs.delete (picked.map JobRow.id)
        deleted := s.deleted + picked.length
        running := !decide (picked.length < gcBatch) } := by
  have hlength := hpicks.length_expired
  have hcompleted : completed (turns ++ [.batch picked]) v = completed turns v := by
    simp [completed, Turn.execute]
  have hbatches : batches (turns ++ [.batch picked]) = batches turns + 1 := by
    simp [batches, Turn.isBatch]
  have hfull := h.full hrunning
  constructor
  · rw [hpicks.withoutExpired, hcompleted]
    exact h.same
  · have hcount := h.count
    dsimp only
    omega
  · intro hgo
    simp only [Bool.not_eq_true', decide_eq_false_iff_not, not_lt] at hgo
    have hmin := hpicks.2.2
    rw [hbatches, Nat.mul_succ]
    dsimp only
    omega
  · intro hstop
    simp only [Bool.not_eq_false', decide_eq_true_eq] at hstop
    have hmin := hpicks.2.2
    refine ⟨List.length_eq_zero_iff.mp ?_, ?_⟩
    · dsimp only
      omega
    · rw [hbatches]
      dsimp only
      rw [hfull, Nat.mul_add_div (by decide), Nat.div_eq_of_lt hstop, Nat.add_zero]

theorem Sweeping.complete (h : Sweeping cutoff v turns s)
    (hapart : s.apart cutoff (.complete c) = true) :
    Sweeping cutoff v (turns ++ [.complete c]) { s with jobs := c.execute s.jobs } := by
  have hcompleted : completed (turns ++ [.complete c]) v = c.execute (completed turns v) := by
    simp [completed, Turn.execute]
  have hbatches : batches (turns ++ [.complete c]) = batches turns := by
    simp [batches, Turn.isBatch]
  have hspares := spares_of_apart hapart
  constructor
  · rw [hcompleted, hspares.withoutExpired, (spares_of_same hapart h.same).withoutExpired, h.same]
  · rw [hspares.expired]
    exact h.count
  · rw [hbatches]
    exact h.full
  · rw [hbatches, hspares.expired]
    exact h.stopped

/-- Every turn keeps the invariant, and so do all of them. -/
theorem sweeping_of_play
    (h : (Sweep.act cutoff).play (Sweep.apart cutoff) (.start v) turns = some s) :
    Sweeping cutoff v turns s := by
  induction turns using List.reverseRecOn generalizing s with
  | nil =>
    obtain rfl := Option.some.inj h
    exact sweeping_start cutoff v
  | append_singleton turns turn ih =>
    obtain ⟨t, hplay, hapart, hact⟩ := Machine.play_concat.mp h
    have ht := ih hplay
    cases turn with
    | batch picked =>
      obtain ⟨⟨hrunning, hpicks⟩, hs⟩ := Option.ite_none_right_eq_some.mp hact
      rw [← Option.some.inj hs]
      exact ht.batch hrunning hpicks
    | complete c =>
      obtain rfl := Option.some.inj hact
      exact ht.complete hapart

theorem exists_picks (cutoff : ℤ) (v : Jobs) : ∃ picked, Picks cutoff v picked := by
  refine ⟨(v.expired cutoff).take gcBatch, ?_, fun r hr => List.mem_of_mem_take hr,
    List.length_take⟩
  exact ((List.Nodup.of_map _ v.table.nodup).filter _).sublist (List.take_sublist _ _)

/-! ## The loop of the code -/

variable {scan : ScanOrder}

theorem picks_batch (scan : ScanOrder) (cutoff : ℤ) (v : Jobs) :
    Picks cutoff v (scan.batch cutoff v) := by
  have hperm := scan.perm (v.expired cutoff)
  refine ⟨?_, fun r hr => hperm.mem_iff.mp (List.mem_of_mem_take hr), ?_⟩
  · have hnodup : (v.expired cutoff).Nodup := (List.Nodup.of_map _ v.table.nodup).filter _
    exact (hperm.nodup_iff.mpr hnodup).sublist (List.take_sublist _ _)
  · rw [← hperm.length_eq]
    exact List.length_take

/-- The loop with nobody else at work, as turns. -/
theorem play_sweepBatches (scan : ScanOrder) (cutoff : ℤ) (v : Jobs) (n : ℕ) :
    ∃ turns, (∀ w, completed turns w = w) ∧
      (Sweep.act cutoff).play (Sweep.apart cutoff) ⟨v, n, true⟩ turns =
        some ⟨(sweepBatches scan cutoff v n).1, (sweepBatches scan cutoff v n).2, false⟩ := by
  induction v, n using sweepBatches.induct scan cutoff with
  | case1 v n batch hlt =>
    refine ⟨[.batch batch], fun _ => rfl, ?_⟩
    rw [sweepBatches, dif_pos hlt]
    simp [Machine.play, Sweep.act, Sweep.apart, batch, picks_batch, hlt]
  | case2 v n batch rest hge hdec ih =>
    obtain ⟨turns, hothers, hplay⟩ := ih
    refine ⟨.batch batch :: turns, hothers, ?_⟩
    rw [sweepBatches, dif_neg hge]
    simpa [Machine.play, Sweep.act, Sweep.apart, batch, picks_batch, hge] using hplay

/-- Alone, the loop is one `DELETE` of the expired rows. -/
theorem sweepBatches_eq_delete (scan : ScanOrder) (cutoff : ℤ) (v : Jobs) :
    sweepBatches scan cutoff v 0 = (v.withoutExpired cutoff, (v.expired cutoff).length) := by
  obtain ⟨turns, hothers, hplay⟩ := play_sweepBatches scan cutoff v 0
  have h := sweeping_of_play hplay
  have hempty := (h.stopped rfl).1
  have hjobs := h.same
  have hcount := h.count
  rw [withoutExpired_of_nil hempty, hothers] at hjobs
  rw [hempty, List.length_nil, Nat.add_zero] at hcount
  exact Prod.ext hjobs hcount

/-- Whatever rows the batches pick, and whichever other jobs complete between them, the loop stops
after the batch that makes one more than the full batches there are; then exactly the expired rows
are gone, and it returns their number. Until then another batch is possible. Alone, the loops of
both backends are one `DELETE`. -/
theorem sweep_exact (v : Jobs) (cutoff : ℤ) :
    (∀ turns s, (Sweep.act cutoff).play (Sweep.apart cutoff) (.start v) turns = some s →
      (s.running = false → s.jobs = (completed turns v).withoutExpired cutoff ∧
        s.deleted = (v.expired cutoff).length ∧
        batches turns = (v.expired cutoff).length / gcBatch + 1) ∧
      (s.running = true → batches turns ≤ (v.expired cutoff).length / gcBatch ∧
        ∃ picked t, Sweep.act cutoff s (.batch picked) = some t)) ∧
    ∀ scan now days,
      (Pg.cutoff now days = .ok cutoff → Pg.deleteFinishedOlderThan scan now days v =
        (v.withoutExpired cutoff, .ok (v.expired cutoff).length)) ∧
      (Sqlite.cutoff now days = cutoff → Sqlite.deleteFinishedOlderThan scan now days v =
        (v.withoutExpired cutoff, .ok (v.expired cutoff).length)) := by
  refine ⟨fun turns s hplay => ?_, fun scan now days => ⟨fun hcutoff => ?_, fun hcutoff => ?_⟩⟩
  · have h := sweeping_of_play hplay
    have hcount := h.count
    constructor
    · intro hstop
      obtain ⟨hempty, hbatches⟩ := h.stopped hstop
      have hjobs := h.same
      rw [withoutExpired_of_nil hempty] at hjobs
      rw [hempty, List.length_nil, Nat.add_zero] at hcount
      rw [hcount] at hbatches
      exact ⟨hjobs, hcount, hbatches⟩
    · intro hrunning
      have hfull := h.full hrunning
      obtain ⟨picked, hpicks⟩ := exists_picks cutoff s.jobs
      refine ⟨(Nat.le_div_iff_mul_le (by decide)).mpr ?_, picked, _, if_pos ⟨hrunning, hpicks⟩⟩
      rw [Nat.mul_comm]
      omega
  · rw [Pg.deleteFinishedOlderThan, hcutoff, Jobs.orStop_ok, sweepBatches_eq_delete]
  · rw [Sqlite.deleteFinishedOlderThan, hcutoff, sweepBatches_eq_delete]

/-- A job that is done, and one that is running. -/
def twoJobs : Jobs :=
  ((Jobs.empty.insert "mail" "1" 0 3).insert "mail" "2" 0 3).update (fun r => r.id = 1)
    (JobRow.markDone 5) (JobRow.markDone_id 5)

/-- The second job completes before the first one is deleted. -/
def twoTurns : List Turn :=
  [.complete ⟨2, 10, none⟩, .batch (twoJobs.expired 10)]

theorem sweep_exact_twoJobs :
    ∃ s, (Sweep.act 10).play (Sweep.apart 10) (.start twoJobs) twoTurns = some s ∧
      s.jobs = (completed twoTurns twoJobs).withoutExpired 10 ∧ s.deleted = 1 := by
  have hplay : ((Sweep.act 10).play (Sweep.apart 10) (.start twoJobs) twoTurns).map
      (fun s => s.running) = some false := by decide +kernel
  obtain ⟨s, hs, hstop⟩ := Option.map_eq_some_iff.mp hplay
  obtain ⟨hjobs, hdeleted, -⟩ := ((sweep_exact twoJobs 10).1 twoTurns s hs).1 hstop
  exact ⟨s, hs, hjobs, hdeleted⟩

end Slab.JobQueue
