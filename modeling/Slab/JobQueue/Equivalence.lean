import Slab.JobQueue.Backend
import Slab.Txn.Ranked

/-!
# The two backends against each other

The same calls, with the same clock readings, against the same table in Postgres and in SQLite.
The two agree call by call where no argument is out of the range of one of them and where the
two orders of `fetch_due`, `ORDER BY run_at, id` and `ORDER BY id`, put the same jobs under its
limit; so they agree along every sequence of such calls.

## Main definitions

- `Call`, `Backend.reply` — the operations of a backend as data
- `Call.Alike` — what a call must meet for the two backends to agree on it

## Main results

- `backends_agree` — along every sequence of such calls
- `fetchDue_handsOut_iff` — for `fetch_due` the condition on the two orders is exact
- `backends_differ` — two jobs whose order by `run_at` is not the order of their ids
-/

namespace Slab.JobQueue

open Txn

/-- The operations that both backends have. -/
inductive Call where
  | insert (jobType payload : String) (runAt maxAttempts : ℤ)
  | fetchDue (jobType : String) (limit : ℤ) (lockBy : String)
  | markDone (id : ℕ)
  | scheduleRetry (id : ℕ) (attempts : ℤ) (delay : ℕ) (lastError : String)
  | markFailed (id : ℕ) (attempts : ℤ) (lastError : String)
  | reenqueueOrphaned (olderThan : ℤ)
  | deleteFinishedOlderThan (retentionDays : ℤ)
deriving DecidableEq

/-- The jobs that a fetch hands out; none when it fails. -/
def handedOut (result : Except Failure (List FetchJob)) : List FetchJob :=
  match result with
  | .ok jobs => jobs
  | .error _ => []

/-- A call that hands out nothing. -/
def Reply.table {α : Type} (reply : Reply α) : Jobs × List FetchJob := (reply.1, [])

/-- The table after a call at `now`, and the jobs it hands out. -/
def Backend.reply (codec : Codec) (scan : ScanOrder) (now : ℤ) (v : Jobs) :
    Backend → Call → Jobs × List FetchJob
  | pg, .insert jobType payload runAt maxAttempts =>
    Reply.table (Pg.insert codec jobType payload runAt maxAttempts v)
  | pg, .fetchDue jobType limit lockBy =>
    let reply := Pg.fetchDue codec ⟨jobType, limit, lockBy, now⟩ v
    (reply.1, handedOut reply.2)
  | pg, .markDone id => Reply.table (Pg.markDone now id v)
  | pg, .scheduleRetry id attempts delay lastError =>
    Reply.table (Pg.scheduleRetry now id attempts delay lastError v)
  | pg, .markFailed id attempts lastError =>
    Reply.table (Pg.markFailed now id attempts lastError v)
  | pg, .reenqueueOrphaned olderThan => Reply.table (Pg.reenqueueOrphaned olderThan v)
  | pg, .deleteFinishedOlderThan retentionDays =>
    Reply.table (Pg.deleteFinishedOlderThan scan now retentionDays v)
  | sqlite, .insert jobType payload runAt maxAttempts =>
    Reply.table (Sqlite.insert jobType payload runAt maxAttempts v)
  | sqlite, .fetchDue jobType limit lockBy =>
    let reply := Sqlite.fetchDue codec ⟨jobType, limit, lockBy, now⟩ v
    (reply.1, handedOut reply.2)
  | sqlite, .markDone id => Reply.table (Sqlite.markDone now id v)
  | sqlite, .scheduleRetry id attempts delay lastError =>
    Reply.table (Sqlite.scheduleRetry now id attempts delay lastError v)
  | sqlite, .markFailed id attempts lastError =>
    Reply.table (Sqlite.markFailed now id attempts lastError v)
  | sqlite, .reenqueueOrphaned olderThan => Reply.table (Sqlite.reenqueueOrphaned olderThan v)
  | sqlite, .deleteFinishedOlderThan retentionDays =>
    Reply.table (Sqlite.deleteFinishedOlderThan scan now retentionDays v)

/-- Calls with their clock readings, one after another: the table at the end, and what each call
handed out. -/
def Backend.replies (codec : Codec) (scan : ScanOrder) (backend : Backend) :
    List (Call × ℤ) → Jobs → Jobs × List (List FetchJob)
  | [], v => (v, [])
  | (call, now) :: calls, v =>
    let first := backend.reply codec scan now v call
    let rest := backend.replies codec scan calls first.1
    (rest.1, first.2 :: rest.2)

/-! ## The condition -/

/-- The rows under the limit are the same in the order of `run_at` and in the order of ids. -/
def SameHead (limit : ℤ) (due : List JobRow) : Prop :=
  ∀ r ∈ due, (due.countP (fun s => ¬Pg.fetchOrder r s) : ℤ) < limit ↔
    (due.countP (fun s => s.id < r.id) : ℤ) < limit

instance (limit : ℤ) (due : List JobRow) : Decidable (SameHead limit due) :=
  inferInstanceAs (Decidable (∀ r ∈ due, _))

/-- What a fetch must meet: nothing is asked for or due, or its arguments are in order and so are
the jobs under its limit. -/
def FetchesAlike (v : Jobs) (call : FetchCall) : Prop :=
  v.due call = [] ∨ call.limit = 0 ∨
    0 < call.limit ∧ Pg.text call.jobType = true ∧ Pg.text call.lockBy = true ∧
      SameHead call.limit (v.due call)

instance (v : Jobs) (call : FetchCall) : Decidable (FetchesAlike v call) :=
  inferInstanceAs (Decidable (_ ∨ _ ∨ _))

/-- What a call at `now` must meet for the two backends to agree on it: that it has nothing to do,
or that its arguments are in the range of both. -/
def Call.Alike (codec : Codec) (now : ℤ) (v : Jobs) : Call → Prop
  | .insert jobType payload runAt _ =>
    Pg.varchar128 jobType = true ∧ codec.jsonb payload = true ∧
      Pg.minTimestamp ≤ runAt ∧ runAt ≤ maxUtc
  | .fetchDue jobType limit lockBy =>
    FetchesAlike v ⟨jobType, limit, lockBy, now⟩
  | .markDone _ => True
  | .scheduleRetry id _ delay lastError =>
    v.get? id = none ∨
      ((asMillis delay : ℤ) < 2 ^ 63 ∧ Pg.minTimestamp ≤ now + asMillis delay ∧
        now + asMillis delay ≤ maxUtc ∧ Pg.text lastError = true) ∨
      ((2 : ℤ) ^ 63 ≤ asMillis delay ∧
        ((Pg.retryAt now delay).isOk = false ∨ Pg.text lastError = false))
  | .markFailed id _ lastError => v.get? id = none ∨ Pg.text lastError = true
  | .reenqueueOrphaned olderThan =>
    (∀ r ∈ v.rows, r.isOrphaned olderThan = false) ∨
      Pg.minTimestamp ≤ olderThan ∧ olderThan ≤ maxUtc
  | .deleteFinishedOlderThan retentionDays =>
    (∀ r ∈ v.rows, r.isExpired (Sqlite.cutoff now retentionDays) = false) ∨
      -2 ^ 31 ≤ retentionDays ∧ retentionDays < 2 ^ 31 ∧
        Pg.minTimestamp ≤ now - retentionDays * millisPerDay ∧
        now - retentionDays * millisPerDay < Pg.endTimestamp

instance (codec : Codec) (now : ℤ) (v : Jobs) (call : Call) : Decidable (call.Alike codec now v) :=
  match call with
  | .insert _ _ _ _ => inferInstanceAs (Decidable (_ ∧ _))
  | .fetchDue _ _ _ => inferInstanceAs (Decidable (FetchesAlike _ _))
  | .markDone _ => inferInstanceAs (Decidable True)
  | .scheduleRetry _ _ _ _ => inferInstanceAs (Decidable (_ ∨ _ ∨ _))
  | .markFailed _ _ _ => inferInstanceAs (Decidable (_ ∨ _))
  | .reenqueueOrphaned _ => inferInstanceAs (Decidable ((∀ r ∈ v.rows, _) ∨ _))
  | .deleteFinishedOlderThan _ => inferInstanceAs (Decidable ((∀ r ∈ v.rows, _) ∨ _))

/-- Every call of the sequence meets the condition, in the table it finds. -/
def AllAlike (codec : Codec) (scan : ScanOrder) : List (Call × ℤ) → Jobs → Prop
  | [], _ => True
  | (call, now) :: calls, v =>
    call.Alike codec now v ∧ AllAlike codec scan calls (Backend.pg.reply codec scan now v call).1

instance (codec : Codec) (scan : ScanOrder) :
    (calls : List (Call × ℤ)) → (v : Jobs) → Decidable (AllAlike codec scan calls v)
  | [], _ => inferInstanceAs (Decidable True)
  | (call, now) :: calls, v =>
    have := instDecidableAllAlike codec scan calls (Backend.pg.reply codec scan now v call).1
    inferInstanceAs (Decidable (call.Alike codec now v ∧ AllAlike codec scan calls _))

/-! ## Fetching -/

section Fetch

variable {call : FetchCall} {v : Jobs}

theorem nodup_due : (v.due call).Nodup := by
  have hkeys := v.table.nodup.of_map
  exact hkeys.filter _

theorem due_inj {r s : JobRow} (hr : r ∈ v.due call) (hs : s ∈ v.due call) (h : r.id = s.id) :
    r = s :=
  List.inj_on_of_nodup_map v.table.nodup (List.mem_filter.mp hr).1 (List.mem_filter.mp hs).1 h

/-- The jobs of Postgres: those with fewer than `limit` jobs before them by `run_at`. -/
theorem mem_pg_selectDue {r : JobRow} :
    r ∈ Pg.selectDue call (fun _ => false) v ↔
      r ∈ v.due call ∧ ((v.due call).countP fun s => ¬Pg.fetchOrder r s) < call.limit.toNat := by
  have hfilter : (v.due call).filter (fun r => !false) = v.due call := List.filter_true _
  rw [Pg.selectDue, hfilter]
  refine mem_take_insertionSort ?_ ?_ ?_ nodup_due
  · intro x y
    show (x.runAt < y.runAt ∨ x.runAt = y.runAt ∧ x.id ≤ y.id) ∨
      (y.runAt < x.runAt ∨ y.runAt = x.runAt ∧ y.id ≤ x.id)
    omega
  · intro x y z hxy hyz
    show x.runAt < z.runAt ∨ x.runAt = z.runAt ∧ x.id ≤ z.id
    rcases hxy with h | h <;> rcases hyz with h' | h' <;> omega
  · intro x hx y hy hxy hyx
    have hid : x.id = y.id := by
      rcases hxy with h | h <;> rcases hyx with h' | h' <;> omega
    exact due_inj hx hy hid

/-- The jobs of SQLite: those with fewer than `limit` jobs before them by id. -/
theorem mem_sqlite_selectDue {r : JobRow} (hlimit : 0 ≤ call.limit) :
    r ∈ Sqlite.selectDue call v ↔
      r ∈ v.due call ∧ ((v.due call).countP fun s => s.id < r.id) < call.limit.toNat := by
  rw [Sqlite.selectDue, if_neg (Int.not_lt.mpr hlimit)]
  have hcount : ((v.due call).countP fun s => s.id < r.id) =
      (v.due call).countP fun s => ¬r.id ≤ s.id := by
    refine List.countP_congr fun s _ => ?_
    simp
  rw [hcount]
  refine mem_take_insertionSort ?_ ?_ ?_ nodup_due
  · intro x y
    exact Nat.le_total x.id y.id
  · intro x y z
    exact Nat.le_trans
  · intro x hx y hy hxy hyx
    exact due_inj hx hy (Nat.le_antisymm hxy hyx)

theorem nodup_pg_selectDue : (Pg.selectDue call (fun _ => false) v).Nodup := by
  have hsorted := (List.perm_insertionSort Pg.fetchOrder
    ((v.due call).filter fun _ => true)).nodup_iff.mpr (nodup_due.filter _)
  exact hsorted.sublist (List.take_sublist _ _)

theorem nodup_sqlite_selectDue : (Sqlite.selectDue call v).Nodup := by
  have hsorted := (List.perm_insertionSort (fun x y : JobRow => x.id ≤ y.id)
    (v.due call)).nodup_iff.mpr nodup_due
  rw [Sqlite.selectDue]
  split
  · exact hsorted
  · exact hsorted.sublist (List.take_sublist _ _)

/-- Under the condition the two select the same rows. -/
theorem selectDue_perm (hlimit : 0 ≤ call.limit) (h : SameHead call.limit (v.due call)) :
    (Pg.selectDue call (fun _ => false) v).Perm (Sqlite.selectDue call v) := by
  refine (List.perm_ext_iff_of_nodup nodup_pg_selectDue nodup_sqlite_selectDue).mpr fun r => ?_
  rw [mem_pg_selectDue, mem_sqlite_selectDue hlimit]
  refine and_congr_right fun hr => ?_
  have := h r hr
  omega

theorem mem_due_of_sqlite_selectDue {r : JobRow} (h : r ∈ Sqlite.selectDue call v) :
    r ∈ v.due call := by
  rw [Sqlite.selectDue] at h
  split at h
  · exact (List.mem_insertionSort _).mp h
  · exact (List.mem_insertionSort _).mp (List.mem_of_mem_take h)

/-- One update after another, where the second leaves alone what the first has changed. -/
theorem update_update {p q : JobRow → Bool} {f : JobRow → JobRow} {hf : ∀ r, (f r).id = r.id}
    (hq : ∀ r, q (f r) = false) :
    (v.update p f hf).update q f hf = v.update (fun r => p r || q r) f hf := by
  refine Jobs.ext (Table.ext ?_) rfl
  show ((v.rows.map fun r => if p r then f r else r).map fun r => if q r then f r else r) =
    v.rows.map fun r => if p r || q r then f r else r
  rw [List.map_map]
  refine List.map_congr_left fun r _ => ?_
  simp only [Function.comp_apply]
  cases hp : p r with
  | true => simp [hq]
  | false => simp

theorem update_congr {p q : JobRow → Bool} {f : JobRow → JobRow} {hf : ∀ r, (f r).id = r.id}
    (h : ∀ r ∈ v.rows, p r = q r) : v.update p f hf = v.update q f hf := by
  refine Jobs.ext ?_ rfl
  show v.table.updateWhere p f hf = v.table.updateWhere q f hf
  exact Table.updateWhere_congr h

theorem update_of_false {f : JobRow → JobRow} {hf : ∀ r, (f r).id = r.id} :
    v.update (fun _ => false) f hf = v := by
  refine Jobs.ext ?_ rfl
  show v.table.updateWhere (fun _ => false) f hf = v.table
  exact Table.updateWhere_of_false fun _ _ => rfl

/-- The updates of `lock_and_mark`, one for each row, are one update of all of them. -/
theorem foldl_markRunning (rows : List JobRow) :
    rows.foldl (fun v r => Sqlite.markRunning call r.id v) v =
      v.update (fun r => (rows.map JobRow.id).contains r.id && decide (r.status = .pending))
        (JobRow.markRunning call.lockBy call.now)
        (JobRow.markRunning_id call.lockBy call.now) := by
  induction rows generalizing v with
  | nil => exact update_of_false.symm
  | cons r rows ih =>
    rw [List.foldl_cons, ih, Sqlite.markRunning, update_update]
    · refine update_congr fun s _ => ?_
      rw [List.map_cons, List.contains_cons]
      cases decide (s.status = .pending) <;> simp [Bool.beq_eq_decide_eq]
    · intro s
      simp [JobRow.markRunning]

/-- In SQLite the updates one after another are the update of Postgres. -/
theorem lockAndMark_fst :
    (Sqlite.lockAndMark call v).1 =
      Pg.markRunning call ((Sqlite.selectDue call v).map JobRow.id) v := by
  rw [Sqlite.lockAndMark, foldl_markRunning, Pg.markRunning]
  refine update_congr fun r hr => ?_
  cases hc : ((Sqlite.selectDue call v).map JobRow.id).contains r.id with
  | false => rfl
  | true =>
    obtain ⟨s, hs, hid⟩ := List.mem_map.mp (List.contains_iff_mem.mp hc)
    obtain ⟨hmem, hdue⟩ := List.mem_filter.mp (mem_due_of_sqlite_selectDue hs)
    have hsr : s = r := List.inj_on_of_nodup_map v.table.nodup hmem hr hid
    simp [← hsr, (JobRow.isDue_iff.mp hdue).2.1]

/-- The two marks are the same when the rows are. -/
theorem lockAndMark_eq (h : (Pg.selectDue call (fun _ => false) v).Perm (Sqlite.selectDue call v)) :
    (Sqlite.lockAndMark call v).1 =
      Pg.markRunning call ((Pg.selectDue call (fun _ => false) v).map JobRow.id) v := by
  rw [lockAndMark_fst, Pg.markRunning, Pg.markRunning]
  refine update_congr fun r _ => ?_
  rw [Bool.eq_iff_iff, List.contains_iff_mem, List.contains_iff_mem]
  exact (h.map JobRow.id).mem_iff.symm

theorem mem_due_of_pg_selectDue {r : JobRow} (h : r ∈ Pg.selectDue call (fun _ => false) v) :
    r ∈ v.due call := (mem_pg_selectDue.mp h).1

/-- `RETURNING` has the updated rows. -/
theorem returning_markRunning (ids : List ℕ) :
    Pg.returning ids (Pg.markRunning call ids v) =
      (v.rows.filter fun r => ids.contains r.id).map
        (JobRow.markRunning call.lockBy call.now) := by
  show ((v.rows.map fun r => if ids.contains r.id then
    r.markRunning call.lockBy call.now else r).filter fun r => ids.contains r.id) = _
  rw [List.filter_map]
  have hfilter : (fun r : JobRow => ids.contains r.id) ∘ (fun r => if ids.contains r.id then
      r.markRunning call.lockBy call.now else r) = fun r => ids.contains r.id := by
    funext r
    rw [Function.comp_apply]
    split <;> rfl
  rw [hfilter]
  refine List.map_congr_left fun r hr => ?_
  rw [if_pos (List.mem_filter.mp hr).2]

/-- They are the jobs of the subquery, as they were selected. -/
theorem returning_perm :
    ((Pg.returning ((Pg.selectDue call (fun _ => false) v).map JobRow.id)
      (Pg.markRunning call ((Pg.selectDue call (fun _ => false) v).map JobRow.id) v)).map
        JobRow.fetched).Perm ((Pg.selectDue call (fun _ => false) v).map JobRow.fetched) := by
  have hmark : JobRow.fetched ∘ JobRow.markRunning call.lockBy call.now = JobRow.fetched := rfl
  rw [returning_markRunning, List.map_map, hmark]
  refine List.Perm.map _ ?_
  refine (List.perm_ext_iff_of_nodup (v.table.nodup.of_map.filter _) nodup_pg_selectDue).mpr ?_
  intro r
  rw [List.mem_filter, List.contains_iff_mem, List.mem_map]
  constructor
  · rintro ⟨hr, s, hs, hid⟩
    have hsr : s = r := List.inj_on_of_nodup_map v.table.nodup
      (List.mem_filter.mp (mem_due_of_pg_selectDue hs)).1 hr hid
    exact hsr ▸ hs
  · intro hr
    exact ⟨(List.mem_filter.mp (mem_due_of_pg_selectDue hr)).1, r, hr, rfl⟩

/-- What a fetch hands out depends on the jobs only. -/
theorem handedOut_collect (codec : Codec) (rows : List JobRow) :
    handedOut (collect codec rows) =
      if (rows.map JobRow.fetched).all fun j => codec.parses j.payload then
        rows.map JobRow.fetched
      else [] := by
  rw [collect, List.all_map]
  show handedOut (if rows.all fun r => codec.parses r.payload then _ else _) =
    if rows.all fun r => codec.parses r.payload then _ else _
  split <;> rfl

theorem handedOut_collect_perm {codec : Codec} {rows rows' : List JobRow}
    (h : (rows.map JobRow.fetched).Perm (rows'.map JobRow.fetched)) :
    (handedOut (collect codec rows)).Perm (handedOut (collect codec rows')) := by
  rw [handedOut_collect, handedOut_collect, h.all_eq]
  split
  · exact h
  · exact List.Perm.refl []

/-- The backends agree on a fetch that meets the condition. -/
theorem fetchDue_agree {codec : Codec} (h : FetchesAlike v call) :
    (Pg.fetchDue codec call v).1 = (Sqlite.fetchDue codec call v).1 ∧
      (handedOut (Pg.fetchDue codec call v).2).Perm
        (handedOut (Sqlite.fetchDue codec call v).2) := by
  rcases or_assoc.mpr h with hnone | ⟨hlimit, htype, hlock, hhead⟩
  · -- nothing is asked for or due: neither marks a row
    have hpg : Pg.selectDue call (fun _ => false) v = [] := by
      rcases hnone with hnone | hzero
      · simp [Pg.selectDue, hnone]
      · simp [Pg.selectDue, hzero]
    have hsqlite : Sqlite.selectDue call v = [] := by
      rcases hnone with hnone | hzero
      · simp [Sqlite.selectDue, hnone]
      · simp [Sqlite.selectDue, hzero]
    have hmark : Pg.markRunning call [] v = v := update_of_false
    have hreturning : Pg.returning [] v = [] := List.filter_false _
    rw [Pg.fetchDue, Sqlite.fetchDue, Sqlite.lockAndMark, hsqlite]
    split
    · exact ⟨rfl, List.Perm.refl []⟩
    · simp only [hpg, List.map_nil, hmark, hreturning, List.foldl_nil]
      exact ⟨trivial, List.Perm.refl _⟩
  · have hperm := selectDue_perm hlimit.le hhead
    rw [Pg.fetchDue, if_neg (by simp [htype, hlock, hlimit.le]), Sqlite.fetchDue]
    refine ⟨(lockAndMark_eq hperm).symm, ?_⟩
    exact handedOut_collect_perm (returning_perm.trans (hperm.map _))

theorem handedOut_of_parses {codec : Codec} {rows : List JobRow}
    (h : ∀ r ∈ rows, codec.parses r.payload = true) :
    handedOut (collect codec rows) = rows.map JobRow.fetched := by
  rw [collect, if_pos (List.all_eq_true.mpr h)]
  rfl

/-- The ids that SQLite hands out, when every payload parses. -/
theorem sqlite_handedOut_ids {codec : Codec}
    (hparse : ∀ r ∈ v.due call, codec.parses r.payload = true) :
    (handedOut (Sqlite.fetchDue codec call v).2).map (fun j => j.jobMeta.id) =
      (Sqlite.selectDue call v).map JobRow.id := by
  have hall : ∀ r ∈ Sqlite.selectDue call v, codec.parses r.payload = true :=
    fun r hr => hparse r (mem_due_of_sqlite_selectDue hr)
  rw [Sqlite.fetchDue, Sqlite.lockAndMark, handedOut_of_parses hall, List.map_map]
  rfl

/-- The ids that Postgres hands out, when every payload parses and no argument is refused. -/
theorem pg_handedOut_ids {codec : Codec}
    (hparse : ∀ r ∈ v.due call, codec.parses r.payload = true)
    (hguard : ¬(call.limit < 0 || !Pg.text call.jobType || !Pg.text call.lockBy) = true) :
    ((handedOut (Pg.fetchDue codec call v).2).map fun j => j.jobMeta.id).Perm
      ((Pg.selectDue call (fun _ => false) v).map JobRow.id) := by
  have hfetched : (handedOut (collect codec (Pg.selectDue call (fun _ => false) v))) =
      (Pg.selectDue call (fun _ => false) v).map JobRow.fetched :=
    handedOut_of_parses fun r hr => hparse r (mem_due_of_pg_selectDue hr)
  have hperm := @handedOut_collect_perm codec _ _ (@returning_perm call v)
  rw [hfetched] at hperm
  rw [Pg.fetchDue, if_neg hguard]
  exact (hperm.map _).trans (by rw [List.map_map]; exact List.Perm.refl _)

/-- When every payload parses, the condition is exact: the two backends hand out the same jobs
just where it holds. -/
theorem fetchDue_handsOut_iff {codec : Codec}
    (hparse : ∀ r ∈ v.due call, codec.parses r.payload = true) :
    (handedOut (Pg.fetchDue codec call v).2).Perm (handedOut (Sqlite.fetchDue codec call v).2) ↔
      FetchesAlike v call := by
  refine ⟨fun h => ?_, fun h => (fetchDue_agree h).2⟩
  have hids := (h.map fun j => j.jobMeta.id).symm
  rw [sqlite_handedOut_ids hparse] at hids
  by_cases hdue : v.due call = []
  · exact .inl hdue
  by_cases hzero : call.limit = 0
  · exact .inr (.inl hzero)
  by_cases hguard : (call.limit < 0 || !Pg.text call.jobType || !Pg.text call.lockBy) = true
  · -- Postgres refuses the call, and SQLite has something to hand out
    exfalso
    rw [Pg.fetchDue, if_pos hguard] at hids
    have hnil : Sqlite.selectDue call v = [] := List.map_eq_nil_iff.mp hids.eq_nil
    have hlength := congrArg List.length hnil
    have hpos := List.length_pos_iff.mpr hdue
    rw [Sqlite.selectDue] at hlength
    split at hlength
    · rw [List.length_insertionSort, List.length_nil] at hlength
      omega
    · rw [List.length_take, List.length_insertionSort, List.length_nil] at hlength
      omega
  · have hperm := hids.trans (pg_handedOut_ids hparse hguard)
    simp only [Bool.or_eq_true, decide_eq_true_eq, Bool.not_eq_true', not_or,
      Bool.not_eq_false] at hguard
    obtain ⟨⟨hlimit, htype⟩, hlock⟩ := hguard
    refine .inr (.inr ⟨by omega, htype, hlock, fun r hr => ?_⟩)
    have hmem : r ∈ Sqlite.selectDue call v ↔ r ∈ Pg.selectDue call (fun _ => false) v := by
      constructor
      · intro hs
        obtain ⟨s, hs', hid⟩ := List.mem_map.mp (hperm.mem_iff.mp (List.mem_map_of_mem hs))
        exact due_inj (mem_due_of_pg_selectDue hs') hr hid ▸ hs'
      · intro hs
        obtain ⟨s, hs', hid⟩ := List.mem_map.mp (hperm.mem_iff.mpr (List.mem_map_of_mem hs))
        exact due_inj (mem_due_of_sqlite_selectDue hs') hr hid ▸ hs'
    rw [mem_sqlite_selectDue (by omega), mem_pg_selectDue, and_iff_right hr,
      and_iff_right hr] at hmem
    omega

end Fetch

/-! ## Deleting finished jobs -/

section Delete

variable {scan : ScanOrder} {cutoff : ℤ} {v : Jobs}

/-- The table without the jobs that finished before `cutoff`. -/
def Jobs.withoutExpired (cutoff : ℤ) (v : Jobs) : Jobs where
  table := v.table.restrict fun r => !r.isExpired cutoff
  nextId := v.nextId
  fresh r hr := v.fresh r (List.mem_filter.mp hr).1

theorem mem_batch_ids {r : JobRow} (hr : r ∈ v.rows) :
    r.id ∈ (scan.batch cutoff v).map JobRow.id ↔ r ∈ scan.batch cutoff v := by
  constructor
  · intro h
    obtain ⟨s, hs, hid⟩ := List.mem_map.mp h
    have hsr : s = r :=
      List.inj_on_of_nodup_map v.table.nodup (ScanOrder.mem_batch hs).1 hr hid
    exact hsr ▸ hs
  · intro h
    exact ⟨r, h, rfl⟩ |> List.mem_map.mpr

theorem rows_delete_batch :
    (v.delete ((scan.batch cutoff v).map JobRow.id)).rows =
      v.rows.filter fun r => decide (r ∉ scan.batch cutoff v) := by
  refine List.filter_congr fun r hr => ?_
  have hiff : r.id ∈ (scan.batch cutoff v).map JobRow.id ↔ r ∈ scan.batch cutoff v :=
    mem_batch_ids hr
  by_cases h : r ∈ scan.batch cutoff v
  · simp [h, hiff.mpr h]
  · have hid : r.id ∉ (scan.batch cutoff v).map JobRow.id := fun hid => h (hiff.mp hid)
    simp [h, hid]

/-- Whatever the order in which rows are found, the loop ends with exactly the expired jobs
deleted. -/
theorem sweepBatches_eq (n : ℕ) : (sweepBatches scan cutoff v n).1 = v.withoutExpired cutoff := by
  induction v, n using sweepBatches.induct scan cutoff with
  | case1 v n batch hlt =>
    rw [sweepBatches, dif_pos hlt]
    refine Jobs.ext (Table.ext ?_) rfl
    show (v.delete (batch.map JobRow.id)).rows = v.rows.filter fun r => !r.isExpired cutoff
    rw [rows_delete_batch]
    refine List.filter_congr fun r hr => ?_
    -- a batch that is not full has every expired row
    have hall : batch = scan.order (v.rows.filter (JobRow.isExpired cutoff)) := by
      refine List.take_of_length_le ?_
      have hlen : batch.length = min gcBatch
        (scan.order (v.rows.filter (JobRow.isExpired cutoff))).length := List.length_take
      omega
    have hmem : r ∈ batch ↔ r.isExpired cutoff = true := by
      rw [hall, (scan.perm _).mem_iff, List.mem_filter]
      exact and_iff_right hr
    show decide (r ∉ batch) = !r.isExpired cutoff
    cases hexp : r.isExpired cutoff with
    | true => simp [hmem.mpr hexp]
    | false =>
      have hnot : r ∉ batch := fun h => by
        rw [hmem, hexp] at h
        cases h
      simp [hnot]
  | case2 v n batch rest hge hdec ih =>
    rw [sweepBatches, dif_neg hge, ih]
    refine Jobs.ext (Table.ext ?_) rfl
    show ((v.delete (batch.map JobRow.id)).rows.filter fun r => !r.isExpired cutoff) =
      v.rows.filter fun r => !r.isExpired cutoff
    rw [rows_delete_batch, List.filter_filter]
    refine List.filter_congr fun r _ => ?_
    by_cases h : r ∈ scan.batch cutoff v
    · simp [(ScanOrder.mem_batch h).2]
    · simp [h]

end Delete

/-! ## Call by call -/

section Replies

variable {codec : Codec} {now : ℤ} {v : Jobs}

theorem timestamp_eq_ok {t : ℤ} (hlo : Pg.minTimestamp ≤ t) (hhi : t ≤ maxUtc) :
    Pg.timestamp t = .ok t := if_pos ⟨hlo, hhi⟩

theorem fits_of_timestamp {t : ℤ} (hlo : Pg.minTimestamp ≤ t) (hhi : t < Pg.endTimestamp) :
    Arith.i64.norm t = t := by
  refine Arith.fits_i64_iff.mpr ?_
  unfold Pg.minTimestamp at hlo
  unfold Pg.endTimestamp at hhi
  constructor <;> omega

/-- An update of a row that is not there. -/
theorem update_id_of_none {id : ℕ} {f : JobRow → JobRow} {hf : ∀ r, (f r).id = r.id}
    (h : v.get? id = none) : v.update (fun r => r.id = id) f hf = v := by
  refine (update_congr fun r hr => ?_).trans update_of_false
  exact decide_eq_false (Table.get?_eq_none.mp h r hr)

theorem insert_agree {jobType payload : String} {runAt maxAttempts : ℤ}
    (h : (Call.insert jobType payload runAt maxAttempts).Alike codec now v) :
    (Pg.insert codec jobType payload runAt maxAttempts v).1 =
      (Sqlite.insert jobType payload runAt maxAttempts v).1 := by
  obtain ⟨htype, hjson, hlo, hhi⟩ := h
  rw [Pg.insert, timestamp_eq_ok hlo hhi, Jobs.orStop_ok, if_pos (by simp [htype, hjson])]
  rfl

theorem retryAt_agree {delay : ℕ} (hdelay : (asMillis delay : ℤ) < 2 ^ 63)
    (hlo : Pg.minTimestamp ≤ now + asMillis delay)
    (hhi : now + asMillis delay ≤ maxUtc) :
    Pg.retryAt now delay = .ok (now + asMillis delay) ∧
      Sqlite.retryAt now delay = .ok (now + asMillis delay) := by
  have hcast : castMillis delay = asMillis delay := by
    delta castMillis
    exact Arith.fits_i64_iff.mpr ⟨by omega, hdelay⟩
  have hend : now + asMillis delay < Pg.endTimestamp :=
    lt_of_le_of_lt hhi (by decide)
  have hmin : minUtc ≤ now + asMillis delay := le_trans (by decide) hlo
  constructor
  · have hrange : ¬((asMillis delay : ℤ) = -2 ^ 63 ∨ now + asMillis delay < minUtc ∨
        maxUtc < now + asMillis delay) := by
      rintro (h | h | h) <;> omega
    rw [Pg.retryAt, hcast, addMillis, if_neg hrange]
    exact timestamp_eq_ok hlo hhi
  · rw [Sqlite.retryAt, if_neg (not_le.mpr hdelay), Arith.add, fits_of_timestamp hlo hend]

theorem scheduleRetry_agree {id : ℕ} {attempts : ℤ} {delay : ℕ} {lastError : String}
    (h : (Call.scheduleRetry id attempts delay lastError).Alike codec now v) :
    (Pg.scheduleRetry now id attempts delay lastError v).1 =
      (Sqlite.scheduleRetry now id attempts delay lastError v).1 := by
  rcases h with hnone | ⟨hdelay, hlo, hhi, htext⟩ | ⟨hdelay, hfails⟩
  · -- there is no such job: whatever comes out of the arguments, nothing is written
    have hpg : (Pg.scheduleRetry now id attempts delay lastError v).1 = v := by
      rw [Pg.scheduleRetry]
      generalize Pg.retryAt now delay = runAt
      cases runAt with
      | error e => rfl
      | ok t =>
        rw [Jobs.orStop_ok]
        split
        · exact update_id_of_none hnone
        · rfl
    have hsqlite : (Sqlite.scheduleRetry now id attempts delay lastError v).1 = v := by
      rw [Sqlite.scheduleRetry]
      generalize Sqlite.retryAt now delay = runAt
      cases runAt with
      | error e => rfl
      | ok t => exact update_id_of_none hnone
    rw [hpg, hsqlite]
  · obtain ⟨hpg, hsqlite⟩ := retryAt_agree hdelay hlo hhi
    rw [Pg.scheduleRetry, Sqlite.scheduleRetry, hpg, hsqlite, Jobs.orStop_ok, Jobs.orStop_ok,
      if_pos htext]
  · -- SQLite stops with `backoff_overflow`, Postgres at the one or the other check
    have hsqlite : Sqlite.retryAt now delay = .error .backoffOverflow := by
      rw [Sqlite.retryAt, if_pos hdelay]
    rw [Pg.scheduleRetry, Sqlite.scheduleRetry, hsqlite, Jobs.orStop_error]
    generalize Pg.retryAt now delay = runAt at hfails ⊢
    cases runAt with
    | error e => rfl
    | ok t =>
      have htext : Pg.text lastError = false := hfails.resolve_left Bool.noConfusion
      rw [Jobs.orStop_ok, if_neg (by simp [htext])]

theorem markFailed_agree {id : ℕ} {attempts : ℤ} {lastError : String}
    (h : (Call.markFailed id attempts lastError).Alike codec now v) :
    (Pg.markFailed now id attempts lastError v).1 =
      (Sqlite.markFailed now id attempts lastError v).1 := by
  rw [Pg.markFailed, Sqlite.markFailed]
  rcases h with hnone | htext
  · rw [update_id_of_none hnone]
    split <;> rfl
  · rw [if_pos htext]

theorem reenqueueOrphaned_agree {olderThan : ℤ}
    (h : (Call.reenqueueOrphaned olderThan).Alike codec now v) :
    (Pg.reenqueueOrphaned olderThan v).1 = (Sqlite.reenqueueOrphaned olderThan v).1 := by
  rw [Sqlite.reenqueueOrphaned, Pg.reenqueueOrphaned]
  rcases h with hnone | ⟨hlo, hhi⟩
  · have hsame : v.update (JobRow.isOrphaned olderThan) JobRow.reenqueue JobRow.reenqueue_id = v :=
      (update_congr hnone).trans update_of_false
    rw [hsame, Pg.timestamp]
    split
    · exact hsame
    · rfl
  · rw [timestamp_eq_ok hlo hhi, Jobs.orStop_ok]

theorem withoutExpired_of_none {t : ℤ} (h : ∀ r ∈ v.rows, r.isExpired t = false) :
    v.withoutExpired t = v := by
  refine Jobs.ext (Table.ext ?_) rfl
  refine List.filter_eq_self.mpr fun r hr => ?_
  simp [h r hr]

theorem cutoff_agree {days : ℤ} (hlo : -2 ^ 31 ≤ days) (hhi : days < 2 ^ 31)
    (hmin : Pg.minTimestamp ≤ now - days * millisPerDay)
    (hend : now - days * millisPerDay < Pg.endTimestamp) :
    Pg.cutoff now days = .ok (Sqlite.cutoff now days) := by
  have hmul : Arith.i64.mul days millisPerDay = days * millisPerDay := by
    refine Arith.fits_i64_iff.mpr ?_
    unfold millisPerDay
    constructor <;> omega
  rw [Sqlite.cutoff, hmul, Arith.sub, fits_of_timestamp hmin hend, Pg.cutoff, if_pos ⟨hlo, hhi⟩,
    if_pos ⟨hmin, hend⟩]

theorem deleteFinishedOlderThan_agree {scan scan' : ScanOrder} {days : ℤ}
    (h : (Call.deleteFinishedOlderThan days).Alike codec now v) :
    (Pg.deleteFinishedOlderThan scan now days v).1 =
      (Sqlite.deleteFinishedOlderThan scan' now days v).1 := by
  have hsqlite : (Sqlite.deleteFinishedOlderThan scan' now days v).1 =
      v.withoutExpired (Sqlite.cutoff now days) := sweepBatches_eq 0
  rw [hsqlite, Pg.deleteFinishedOlderThan]
  by_cases hrange : -2 ^ 31 ≤ days ∧ days < 2 ^ 31 ∧
      Pg.minTimestamp ≤ now - days * millisPerDay ∧ now - days * millisPerDay < Pg.endTimestamp
  · obtain ⟨hlo, hhi, hmin, hend⟩ := hrange
    rw [cutoff_agree hlo hhi hmin hend]
    exact sweepBatches_eq 0
  · have hcutoff : Pg.cutoff now days = .error .database := by
      rw [Pg.cutoff]
      split
      · next hdays =>
        exact if_neg fun htime => hrange ⟨hdays.1, hdays.2, htime⟩
      · rfl
    rw [hcutoff, withoutExpired_of_none (h.resolve_right hrange)]
    rfl

theorem table_agree {α : Type} {a b : Reply α} (h : a.1 = b.1) :
    a.table.1 = b.table.1 ∧ a.table.2.Perm b.table.2 := ⟨h, List.Perm.refl []⟩

/-- The backends agree on every call that meets the condition: the same table, and the same jobs
handed out. -/
theorem reply_agree {scan scan' : ScanOrder} {call : Call} (h : call.Alike codec now v) :
    (Backend.pg.reply codec scan now v call).1 =
        (Backend.sqlite.reply codec scan' now v call).1 ∧
      (Backend.pg.reply codec scan now v call).2.Perm
        (Backend.sqlite.reply codec scan' now v call).2 := by
  cases call with
  | insert jobType payload runAt maxAttempts => exact table_agree (insert_agree h)
  | fetchDue jobType limit lockBy => exact fetchDue_agree h
  | markDone id => exact table_agree rfl
  | scheduleRetry id attempts delay lastError => exact table_agree (scheduleRetry_agree h)
  | markFailed id attempts lastError => exact table_agree (markFailed_agree h)
  | reenqueueOrphaned olderThan => exact table_agree (reenqueueOrphaned_agree h)
  | deleteFinishedOlderThan days => exact table_agree (deleteFinishedOlderThan_agree h)

/-- Along every sequence of calls that meet the condition, the backends hand out the same jobs
from every call and end in the same table. -/
theorem backends_agree {scan scan' : ScanOrder} {calls : List (Call × ℤ)}
    (h : AllAlike codec scan calls v) :
    (Backend.pg.replies codec scan calls v).1 =
        (Backend.sqlite.replies codec scan' calls v).1 ∧
      List.Forall₂ List.Perm (Backend.pg.replies codec scan calls v).2
        (Backend.sqlite.replies codec scan' calls v).2 := by
  induction calls generalizing v with
  | nil => exact ⟨rfl, .nil⟩
  | cons step calls ih =>
    obtain ⟨hcall, hrest⟩ := h
    obtain ⟨htable, hjobs⟩ := @reply_agree _ _ _ scan scan' _ hcall
    obtain ⟨hend, hall⟩ := ih hrest
    rw [Backend.replies, Backend.replies, ← htable]
    exact ⟨hend, .cons hjobs hall⟩

end Replies

/-! ## On fixed calls -/

/-- A JSON library that reads everything back. -/
def Codec.lenient : Codec := ⟨fun _ => true, fun _ => true, fun _ _ => true⟩

/-- Rows are found in the order in which they were inserted. -/
def ScanOrder.insertion : ScanOrder := ⟨id, fun _ => List.Perm.refl _⟩

theorem backends_agree_twoJobs :
    (Backend.pg.replies .lenient .insertion [(.insert "report" "1" 100 2, 50),
        (.insert "report" "2" 200 2, 60), (.fetchDue "report" 1 "local-worker", 300),
        (.scheduleRetry 1 1 1000000000 "job_timeout", 400), (.reenqueueOrphaned 350, 500),
        (.markDone 1, 2000), (.deleteFinishedOlderThan 0, 3000)] .empty).1 =
      (Backend.sqlite.replies .lenient .insertion [(.insert "report" "1" 100 2, 50),
        (.insert "report" "2" 200 2, 60), (.fetchDue "report" 1 "local-worker", 300),
        (.scheduleRetry 1 1 1000000000 "job_timeout", 400), (.reenqueueOrphaned 350, 500),
        (.markDone 1, 2000), (.deleteFinishedOlderThan 0, 3000)] .empty).1 :=
  (backends_agree (by decide +kernel)).1

/-- The job with the larger id is due first: under the limit 1, Postgres hands out the one and
SQLite the other. -/
theorem backends_differ :
    ¬∀ (codec : Codec) (scan scan' : ScanOrder) (calls : List (Call × ℤ)) (v : Jobs),
      (Backend.pg.replies codec scan calls v).1 =
          (Backend.sqlite.replies codec scan' calls v).1 ∧
        List.Forall₂ List.Perm (Backend.pg.replies codec scan calls v).2
          (Backend.sqlite.replies codec scan' calls v).2 := by
  intro h
  have hpg : (Backend.pg.replies .lenient .insertion [(.insert "report" "1" 200 1, 50),
      (.insert "report" "2" 100 1, 60), (.fetchDue "report" 1 "local-worker", 300)] .empty).2 =
        [[], [], [⟨"2", ⟨2, 0, 1⟩⟩]] := by
    decide +kernel
  have hsqlite : (Backend.sqlite.replies .lenient .insertion [(.insert "report" "1" 200 1, 50),
      (.insert "report" "2" 100 1, 60), (.fetchDue "report" 1 "local-worker", 300)] .empty).2 =
        [[], [], [⟨"1", ⟨1, 0, 1⟩⟩]] := by
    decide +kernel
  have hall := (h .lenient .insertion .insertion [(.insert "report" "1" 200 1, 50),
    (.insert "report" "2" 100 1, 60), (.fetchDue "report" 1 "local-worker", 300)] .empty).2
  rw [hpg, hsqlite] at hall
  obtain ⟨-, hrest⟩ := List.forall₂_cons.mp hall
  obtain ⟨-, hrest⟩ := List.forall₂_cons.mp hrest
  obtain ⟨hjobs, -⟩ := List.forall₂_cons.mp hrest
  have hsame := List.singleton_perm_singleton.mp hjobs
  exact absurd hsame (by decide)

end Slab.JobQueue
