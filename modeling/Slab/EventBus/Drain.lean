import Slab.Txn.Budget
import Slab.EventBus.Aggregation

/-!
# The outbox is drained

A dispatcher that keeps cycling gets done: every cycle uses up attempts, or settles events, and a
cycle that finds nothing although every retry time has passed leaves nothing to be done.

## Main definitions

- `Part.owed`, `Outbox.work` — the attempts that may still be made
- `Part.Sound` — what holds of every event between two cycles

## Main results

- `processMessage_advances` — one message leaves its event in order, and less to be done
- `outbox_drains` — after as many cycles as there were attempts to make, every event is settled
-/

namespace Slab.EventBus

open Txn

/-! ## What is left to be done -/

/-- The attempts that a delivery has left. -/
def DeliveryRow.left (d : DeliveryRow) : ℤ :=
  if d.status = .pending then d.maxAttempts - d.attempts else 0

/-- The attempts that an event has left with the subscribers `names`: those of its deliveries, all
of them for the subscribers that have no delivery yet, and one for the event itself until it is
settled. -/
def Part.owed (names : List String) (p : Part) : ℤ :=
  match p.event with
  | none => 0
  | some e =>
    if e.nextAttemptAt = ⊤ then 0
    else 1 + p.deliveries.tally (fun _ => true) DeliveryRow.left +
      (names.filter fun h => !p.deliveries.has (e.id, h)).length * e.maxAttempts

/-- The subscribers of the event. -/
def Part.subscribers (registry : Registry) (p : Part) : List String :=
  (p.event.bind fun e => registry.get e.topic).getD []

def Outbox.ids (v : Outbox) : List ℕ := v.events.rows.map EventRow.id

/-- The attempts that all events have left. -/
def Outbox.work (registry : Registry) (v : Outbox) : ℤ :=
  (v.ids.map fun id =>
    (part v (.event id)).owed ((part v (.event id)).subscribers registry)).sum

/-- Nothing is left to be done. -/
structure Outbox.Settled (v : Outbox) : Prop where
  events : ∀ e ∈ v.events.rows, e.nextAttemptAt = ⊤
  deliveries : ∀ d ∈ v.deliveries.rows, d.status ≠ .pending

/-! ## What holds between two cycles -/

variable {fromStr : String → Option String} {registry : Registry}

/-- What holds of an event between two cycles: its payload is JSON and its topic has subscribers, it
carries the aggregate of its deliveries, and what is to be done is due by `horizon`. -/
structure Part.Sound (fromStr : String → Option String) (registry : Registry) (horizon : ℤ)
    (p : Part) : Prop extends p.Consistent where
  json : ∀ e, p.event = some e → fromStr e.payload = none
  heard : ∀ e, p.event = some e → registry.get e.topic ≠ none
  counted : ∀ d ∈ p.deliveries.rows, d.status = .pending → d.attempts < d.maxAttempts
  due : ∀ d ∈ p.deliveries.rows, d.status = .pending → d.nextAttemptAt ≤ (horizon : Timestamp)
  dueEvent : ∀ e, p.event = some e → e.nextAttemptAt ≠ ⊤ → e.nextAttemptAt ≤ (horizon : Timestamp)

def Outbox.Sound (fromStr : String → Option String) (registry : Registry) (horizon : ℤ)
    (v : Outbox) : Prop :=
  ∀ id, (part v (.event id)).Sound fromStr registry horizon

section Parts

variable {horizon now : ℤ} {p : Part} {names : List String}

theorem Part.Sound.later (h : p.Sound fromStr registry horizon) (hle : horizon ≤ now) :
    p.Sound fromStr registry now where
  toConsistent := h.toConsistent
  json := h.json
  heard := h.heard
  counted := h.counted
  due d hd hp := (h.due d hd hp).trans (WithTop.coe_le_coe.mpr hle)
  dueEvent e he ht := (h.dueEvent e he ht).trans (WithTop.coe_le_coe.mpr hle)

theorem DeliveryRow.left_nonneg {d : DeliveryRow}
    (h : d.status = .pending → d.attempts < d.maxAttempts) : 0 ≤ d.left := by
  unfold DeliveryRow.left
  split
  · next hp =>
    have := h hp
    omega
  · exact le_refl 0

theorem Part.Sound.tally_nonneg (h : p.Sound fromStr registry horizon) :
    0 ≤ p.deliveries.tally (fun _ => true) DeliveryRow.left := by
  refine List.sum_nonneg fun n hn => ?_
  obtain ⟨d, hd, rfl⟩ := List.mem_map.mp hn
  exact DeliveryRow.left_nonneg (h.counted d (List.mem_filter.mp hd).1)

theorem Part.Sound.owed_nonneg (h : p.Sound fromStr registry horizon) : 0 ≤ p.owed names := by
  unfold Part.owed
  have htally := h.tally_nonneg
  cases p.event with
  | none => exact le_refl 0
  | some e =>
    dsimp only
    split
    · exact le_refl 0
    · positivity

/-- A sound event that is not settled has a delivery to be made, or none at all yet. -/
theorem Part.Sound.pending_of_ne_top (h : p.Sound fromStr registry horizon) {e : EventRow}
    (he : p.event = some e) (hne : e.nextAttemptAt ≠ ⊤) (hrows : p.deliveries.rows ≠ []) :
    ∃ d ∈ p.deliveries.rows, d.status = .pending := by
  by_contra hnone
  push Not at hnone
  exact hne ((h.aggregated e he hrows).settled hnone)

end Parts

/-! ## One delivery -/

/-- The longest time between two attempts. -/
def longestDelay : ℤ := 2 ^ 10 * second

/-- How a delivery that was due has gone on: it is over, or one more attempt has been counted and
there is another one to come. -/
def DeliveryRow.GoesOn (now : ℤ) (d d' : DeliveryRow) : Prop :=
  d'.status ≠ .pending ∨ d'.attempts = d.attempts + 1 ∧ d'.attempts < d'.maxAttempts ∧
    d'.maxAttempts = d.maxAttempts ∧
    ∃ t : ℤ, d'.nextAttemptAt = (t : Timestamp) ∧ t ≤ now + longestDelay

theorem DeliveryRow.GoesOn.left_lt {now : ℤ} {d d' : DeliveryRow} (h : d.GoesOn now d')
    (hp : d.status = .pending) (hlt : d.attempts < d.maxAttempts) : d'.left + 1 ≤ d.left := by
  unfold DeliveryRow.left
  rw [if_pos hp]
  rcases h with h | ⟨ha, -, hm, -⟩
  · rw [if_neg h]
    omega
  · split
    · rw [ha, hm]
      push_cast
      omega
    · omega

theorem DeliveryRow.GoesOn.pending {now : ℤ} {d d' : DeliveryRow} (h : d.GoesOn now d')
    (hp : d'.status = .pending) : d'.attempts < d'.maxAttempts ∧
      ∃ t : ℤ, d'.nextAttemptAt = (t : Timestamp) ∧ t ≤ now + longestDelay := by
  rcases h with h | ⟨-, hlt, -, ht⟩
  · exact absurd hp h
  · exact ⟨hlt, ht⟩

theorem recordRetry_goesOn (now : ℤ) (config : DispatcherConfig) (error : String)
    (d : DeliveryRow) :
    d.GoesOn now (d.recordRetry now
      (RetryPlan.fromFailure d.attempts d.maxAttempts config.backoffMaxSecs error)) := by
  by_cases hlast : d.attempts + 1 ≥ d.maxAttempts
  · refine .inl ?_
    simp [DeliveryRow.recordRetry, RetryPlan.fromFailure, hlast]
  · refine .inr ⟨?_, ?_, rfl,
      now + min (2 ^ min (d.attempts + 1) 10) config.backoffMaxSecs * second, ?_, ?_⟩
    · simp [DeliveryRow.recordRetry, RetryPlan.fromFailure, hlast]
    · simp only [DeliveryRow.recordRetry, RetryPlan.fromFailure, hlast, if_false]
      omega
    · simp [DeliveryRow.recordRetry, RetryPlan.fromFailure, hlast, RetryNextAttempt.at]
    · have hpow : (2 : ℤ) ^ min (d.attempts + 1) 10 ≤ 2 ^ 10 :=
        pow_le_pow_right₀ (by norm_num) (min_le_right _ _)
      have hmin : min ((2 : ℤ) ^ min (d.attempts + 1) 10) config.backoffMaxSecs ≤ 2 ^ 10 :=
        (min_le_left _ _).trans hpow
      have hsecond : (0 : ℤ) ≤ second := by decide
      have := mul_le_mul_of_nonneg_right hmin hsecond
      unfold longestDelay
      linarith

/-- A delivery that is processed goes on, whatever the subscriber answers. -/
theorem processDelivery_runs {now : ℤ} {config : DispatcherConfig} {handlers : List String}
    {payload : String} {id : ℕ} {d : DeliveryRow} {v w : Outbox}
    (h : (processDelivery now config handlers payload id d).Runs v w (.ok ())) :
    ∃ f hf, w = v.mapDelivery id d.handler f hf ∧ d.GoesOn now (f d) := by
  unfold processDelivery at h
  split at h
  · obtain ⟨_, result, ⟨rfl, -⟩, h⟩ := by simpa only [deliverOne, ask, Prog.runs_bind_ok,
      Prog.runs_ask] using h
    cases result with
    | ok => exact ⟨_, _, h.1, .inl (by simp [DeliveryRow.markDelivered])⟩
    | err message => exact ⟨_, _, h.1, recordRetry_goesOn now config message d⟩
    | panicked message => exact ⟨_, _, h.1, .inl (by simp [DeliveryRow.markTerminalFailure])⟩
  · exact ⟨_, _, h.1, .inl (by simp [DeliveryRow.markTerminalFailure])⟩

/-! ## The deliveries of an event -/

/-- What has become of the deliveries `ds` of the event `id`. -/
structure Progressed (now : ℤ) (id : ℕ) (ds : List DeliveryRow) (v w : Outbox) : Prop where
  events : w.events = v.events
  others : ∀ j, j ≠ id → part w (.event j) = part v (.event j)
  has : ∀ h, (w.deliveriesOf id).has (id, h) = (v.deliveriesOf id).has (id, h)
  rows : ∀ d' ∈ (w.deliveriesOf id).rows,
    (d' ∈ (v.deliveriesOf id).rows ∧ d'.handler ∉ ds.map DeliveryRow.handler) ∨
      ∃ d ∈ ds, d.GoesOn now d'
  less : (w.deliveriesOf id).tally (fun _ => true) DeliveryRow.left + ds.length ≤
    (v.deliveriesOf id).tally (fun _ => true) DeliveryRow.left

theorem deliveriesOf_mapDelivery (id : ℕ) (handler : String) (f : DeliveryRow → DeliveryRow)
    (hf : ∀ d, (f d).key = d.key) (v : Outbox) :
    (v.mapDelivery id handler f hf).deliveriesOf id =
      (v.deliveriesOf id).modify (id, handler) f hf :=
  congrArg Part.deliveries (part_mapDelivery id handler f hf v id)

theorem progressed_of_runs {now : ℤ} {config : DispatcherConfig} {handlers : List String}
    {payload : String} {id : ℕ} {ds : List DeliveryRow} {v w : Outbox}
    (hnodup : (ds.map DeliveryRow.handler).Nodup)
    (hds : ∀ d ∈ ds, (v.deliveriesOf id).get? (id, d.handler) = some d ∧ d.isDue now = true)
    (h : (Prog.forEach ds (processDelivery now config handlers payload id)).Runs v w (.ok ())) :
    Progressed now id ds v w := by
  induction ds generalizing v with
  | nil =>
    obtain ⟨rfl, -⟩ := h
    exact ⟨rfl, fun _ _ => rfl, fun _ => rfl, fun d hd => .inl ⟨hd, by simp⟩, by simp⟩
  | cons d ds ih =>
    obtain ⟨u, h₁, h₂⟩ := Prog.runs_forEach_cons_ok.mp h
    obtain ⟨f, hf, rfl, hgoes⟩ := processDelivery_runs h₁
    obtain ⟨hget, hdue⟩ := hds d List.mem_cons_self
    obtain ⟨hnew, hrest⟩ := List.nodup_cons.mp hnodup
    have hmap := deliveriesOf_mapDelivery id d.handler f hf v
    have hu := ih hrest (fun e he => ?_) h₂
    · obtain ⟨hpending, hlt, -⟩ := isDue_iff.mp hdue
      refine ⟨hu.events, fun j hj => ?_, fun hd => ?_, fun d' hd' => ?_, ?_⟩
      · rw [hu.others j hj, part_mapDelivery_of_ne hj]
      · rw [hu.has, hmap, Table.has, Table.has, Table.get?_modify]
        split
        · rw [Option.isSome_map]
        · rfl
      · rcases hu.rows d' hd' with ⟨hold, hnot⟩ | ⟨e, he, hgo⟩
        · rw [hmap] at hold
          by_cases hhd : d'.handler = d.handler
          · -- the row of this delivery is the one that has been written
            have hkey : d'.key = (id, d.handler) := by
              rcases Table.mem_rows_modify hold with hin | ⟨r, hr, rfl⟩
              · rw [DeliveryRow.key, (mem_deliveriesOf hin).1, hhd]
              · rw [hf, Table.key_of_get? hr]
            have hfound := Table.get?_of_mem hold
            rw [hkey, Table.get?_modify_of_some hget] at hfound
            obtain rfl := Option.some.inj hfound
            exact .inr ⟨d, List.mem_cons_self, hgoes⟩
          · rcases Table.mem_rows_modify hold with hin | ⟨r, hr, rfl⟩
            · exact .inl ⟨hin, by simpa [hhd] using hnot⟩
            · have hkey : (f r).key = (id, d.handler) := by rw [hf, Table.key_of_get? hr]
              exact absurd (Prod.mk.inj hkey).2 hhd
        · exact .inr ⟨e, List.mem_cons_of_mem d he, hgo⟩
      · have hless := hu.less
        rw [hmap, Table.tally_modify hget, if_pos rfl, if_pos rfl] at hless
        have hleft := hgoes.left_lt hpending hlt
        rw [List.length_cons]
        push_cast
        linarith
    · obtain ⟨hge, hdu⟩ := hds e (List.mem_cons_of_mem d he)
      refine ⟨?_, hdu⟩
      have hne : (id, e.handler) ≠ (id, d.handler) := fun heq =>
        hnew (List.mem_map.mpr ⟨e, he, (Prod.mk.inj heq).2⟩)
      rw [hmap, Table.get?_modify_of_ne hne, hge]

/-! ## One event -/

section Message

variable {now horizon : ℤ} {config : DispatcherConfig} {id : ℕ} {names : List String}
  {m : ℕ+} {t : Table DeliveryRow.key}

/-- The rows that are ensured are counted among those that were missing. -/
theorem tally_ensured_le : (t.insertAll (names.map (DeliveryRow.ensured now id m))).tally
      (fun _ => true) DeliveryRow.left ≤
    t.tally (fun _ => true) DeliveryRow.left +
      (names.filter fun h => !t.has (id, h)).length * m := by
  induction names generalizing t with
  | nil => simp [Table.insertAll]
  | cons name names ih =>
    have hrec := ih (t := t.insert (DeliveryRow.ensured now id m name))
    have hleft : (DeliveryRow.ensured now id m name).left = m := by
      simp [DeliveryRow.left, DeliveryRow.ensured]
    have hkey : (DeliveryRow.ensured now id m name).key = (id, name) := rfl
    have hfewer : (names.filter fun h =>
        !(t.insert (DeliveryRow.ensured now id m name)).has (id, h)).length ≤
          (names.filter fun h => !t.has (id, h)).length := by
      refine (List.monotone_filter_right names fun h hh => ?_).length_le
      rw [Table.has_insert] at hh
      simp only [Bool.not_or, Bool.and_eq_true] at hh
      exact hh.2
    have hm : (0 : ℤ) ≤ m := by positivity
    have hscaled := mul_le_mul_of_nonneg_right (Int.ofNat_le.mpr hfewer) hm
    rw [Table.tally_insert_eq, if_pos rfl, hkey, hleft] at hrec
    rw [List.map_cons, Table.insertAll, List.foldl_cons, ← Table.insertAll]
    cases hhas : t.has (id, name) with
    | true =>
      rw [hhas, if_pos rfl] at hrec
      simp only [List.filter_cons, hhas, Bool.not_true, Bool.false_eq_true, if_false]
      linarith
    | false =>
      rw [hhas, if_neg Bool.false_ne_true] at hrec
      simp only [List.filter_cons, hhas, Bool.not_false, if_true, List.length_cons]
      push_cast
      linarith

theorem has_ensured {name : String} (h : name ∈ names) :
    (t.insertAll (names.map (DeliveryRow.ensured now id m))).has (id, name) = true := by
  induction names generalizing t with
  | nil => cases h
  | cons first names ih =>
    rw [List.map_cons, Table.insertAll, List.foldl_cons, ← Table.insertAll]
    rcases List.mem_cons.mp h with rfl | h
    · have hhas : (t.insert (DeliveryRow.ensured now id m name)).has (id, name) = true := by
        rw [Table.has_insert]
        simp [DeliveryRow.ensured, DeliveryRow.key]
      obtain ⟨d, hd⟩ := Table.has_iff.mp hhas
      exact Table.has_iff.mpr ⟨d, Table.get?_insertAll_of_some hd⟩
    · exact ih h

theorem mem_ensured {d : DeliveryRow}
    (h : d ∈ (t.insertAll (names.map (DeliveryRow.ensured now id m))).rows) :
    d ∈ t.rows ∨ ∃ name, d = DeliveryRow.ensured now id m name := by
  rcases Table.get?_insertAll (Table.get?_of_mem h) with hold | ⟨-, hnew⟩
  · exact .inl (Table.mem_of_get? hold)
  · obtain ⟨name, -, rfl⟩ := List.mem_map.mp hnew
    exact .inr ⟨name, rfl⟩

theorem ensured_isDue (now : ℤ) (id : ℕ) (m : ℕ+) (name : String) :
    (DeliveryRow.ensured now id m name).isDue now = true :=
  isDue_iff.mpr ⟨rfl, m.pos, le_refl _⟩

/-- What one message has come to: its event is in order, and has less left. -/
structure Advanced (fromStr : String → Option String) (registry : Registry) (horizon : ℤ) (id : ℕ)
    (v w : Outbox) : Prop where
  ids : w.ids = v.ids
  others : ∀ j, j ≠ id → part w (.event j) = part v (.event j)
  sound : (part w (.event id)).Sound fromStr registry horizon
  less : (part w (.event id)).owed ((part w (.event id)).subscribers registry) + 1 ≤
    (part v (.event id)).owed ((part v (.event id)).subscribers registry)

theorem ids_mapEvent (f : EventRow → EventRow) (hf : ∀ e, (f e).id = e.id) (v : Outbox) :
    (v.mapEvent id f hf).ids = v.ids :=
  Table.map_key_modify id f hf v.events.rows

theorem events_ensure (v : Outbox) : (v.ensure now id names).events = v.events := by
  unfold Outbox.ensure
  cases v.events.get? id <;> rfl

/-- A message is processed: its deliveries are ensured, the due ones made, and the event row
refreshed. -/
theorem processMessage_runs {row : MessageRow} (hheard : registry.get row.topic = some names)
    {v w : Outbox}
    (h : (processMessage fromStr registry config now row).Runs v w (.ok ())) :
    ∃ u, (Prog.forEach ((v.ensure now row.id names).dueDeliveries now row.id)
      (processDelivery now config names row.payload row.id)).Runs (v.ensure now row.id names) u
        (.ok ()) ∧ w = u.refresh now row.id := by
  unfold processMessage at h
  cases hjson : fromStr row.payload with
  | some e =>
    rw [hjson] at h
    cases h.2
  | none =>
    simp only [hjson, hheard, ensureDeliveries, refreshMessageState, Prog.runs_bind_ok,
      Prog.runs_select, Prog.runs_update, Except.ok.injEq] at h
    obtain ⟨_, _, ⟨rfl, -⟩, _, ds, ⟨rfl, rfl⟩, u, _, hloop, rfl, -⟩ := h
    exact ⟨u, hloop, rfl⟩

theorem deliveriesOf_ensure {v : Outbox} {e : EventRow} (he : v.events.get? id = some e) :
    (v.ensure now id names).deliveriesOf id =
      (v.deliveriesOf id).insertAll (names.map (DeliveryRow.ensured now id e.maxAttempts)) := by
  have hpart := congrArg Part.deliveries (part_ensure_self now id names v)
  simpa only [part, Part.ensure, he] using hpart

/-- An event that is fetched with deliveries has one that is due. -/
theorem hasWork_due {v : Outbox} {e : EventRow} (h : v.hasWork now e = true)
    (hrows : (v.deliveriesOf e.id).rows ≠ []) :
    ∃ d ∈ (v.deliveriesOf e.id).rows, d.isDue now = true := by
  simp only [Outbox.hasWork, Bool.and_eq_true, Bool.or_eq_true, List.isEmpty_iff] at h
  rcases h.2 with hempty | hany
  · exact absurd hempty hrows
  · exact List.any_eq_true.mp hany

/-- An event whose row is refreshed is sound if what is pending is to be done by `horizon`. -/
theorem sound_refreshed {e : EventRow} {v : Outbox} {ds : Table DeliveryRow.key}
    (hv : (part v (.event id)).Sound fromStr registry horizon) (he : v.events.get? id = some e)
    (hds : ∀ d ∈ ds.rows, d.status = .pending → d.attempts < d.maxAttempts ∧
      d.nextAttemptAt ≠ ⊤ ∧ d.nextAttemptAt ≤ (horizon : Timestamp)) :
    Part.Sound fromStr registry horizon ⟨some (e.refreshed now ds.rows), ds⟩ := by
  have haggregates := refreshed_aggregates now ds.rows e
  constructor
  · refine ⟨⟨fun hnone => absurd hnone (Option.some_ne_none _), fun d hd hp => (hds d hd hp).2.1⟩,
      fun e' he' _ => ?_⟩
    obtain rfl := Option.some.inj he'
    exact haggregates
  · intro e' he'
    obtain rfl := Option.some.inj he'
    exact hv.json e he
  · intro e' he'
    obtain rfl := Option.some.inj he'
    exact hv.heard e he
  · exact fun d hd hp => (hds d hd hp).1
  · exact fun d hd hp => (hds d hd hp).2.2
  · intro e' he' hne
    obtain rfl := Option.some.inj he'
    by_cases hp : ∃ d ∈ ds.rows, d.status = .pending
    · obtain ⟨⟨d, hd, hpd, heq⟩, -⟩ := haggregates.earliest hp
      rw [← heq]
      exact (hds d hd hpd).2.2
    · exact absurd (haggregates.settled fun d hd hpd => hp ⟨d, hd, hpd⟩) hne

/-- A message that has been fetched leaves its event in order, and less to be done. -/
theorem processMessage_advances {row : MessageRow} {e : EventRow} {v w : Outbox}
    (hv : (part v (.event row.id)).Sound fromStr registry horizon)
    (he : v.events.get? row.id = some e) (htopic : row.topic = e.topic)
    (hne : e.nextAttemptAt ≠ ⊤) (hwork : v.hasWork now e = true)
    (hnext : now + longestDelay ≤ horizon)
    (h : (processMessage fromStr registry config now row).Runs v w (.ok ())) :
    Advanced fromStr registry horizon row.id v w := by
  obtain ⟨names, hnames⟩ := Option.ne_none_iff_exists'.mp (hv.heard e he)
  obtain ⟨u, hloop, rfl⟩ := processMessage_runs (htopic ▸ hnames) h
  have hid : e.id = row.id := Table.key_of_get? he
  have hnow : now ≤ horizon := by
    have : (0 : ℤ) ≤ longestDelay := by decide
    omega
  -- the deliveries once they are ensured, and once they are made
  have hensured := @deliveriesOf_ensure now row.id names v e he
  have hprogress : Progressed now row.id ((v.ensure now row.id names).dueDeliveries now row.id)
      (v.ensure now row.id names) u := by
    refine progressed_of_runs (nodup_dueDeliveries _ _ _) (fun d hd => ?_) hloop
    rw [get?_deliveriesOf]
    exact mem_dueDeliveries hd
  generalize hds : (v.ensure now row.id names).dueDeliveries now row.id = ds at hprogress
  have hdue : ∀ d ∈ ((v.ensure now row.id names).deliveriesOf row.id).rows,
      d.isDue now = true → d ∈ ds := by
    intro d hd hdue
    rw [← hds]
    exact (List.perm_insertionSort _ _).mem_iff.mpr (List.mem_filter.mpr ⟨hd, hdue⟩)
  -- what is pending afterwards was not due, or has just been retried
  have hpending : ∀ d' ∈ (u.deliveriesOf row.id).rows, d'.status = .pending →
      d' ∈ (v.deliveriesOf row.id).rows ∨ ∃ d ∈ ds, d.GoesOn now d' := by
    intro d' hd' hp
    rcases hprogress.rows d' hd' with ⟨hold, hnot⟩ | hgoes
    · rw [hensured] at hold
      rcases mem_ensured hold with hold' | ⟨name, rfl⟩
      · exact .inl hold'
      · refine absurd (List.mem_map_of_mem (hdue _ ?_ (ensured_isDue _ _ _ _))) hnot
        rw [hensured]
        exact hold
    · exact .inr hgoes
  have hpart : part (u.refresh now row.id) (.event row.id) =
      ⟨some (e.refreshed now (u.deliveriesOf row.id).rows), u.deliveriesOf row.id⟩ := by
    rw [part_refresh, hprogress.events, events_ensure, he, Option.map_some]
  have haggregates := refreshed_aggregates now (u.deliveriesOf row.id).rows e
  refine ⟨?_, fun j hj => ?_, ?_, ?_⟩
  · rw [Outbox.refresh, ids_mapEvent, Outbox.ids, hprogress.events, events_ensure, Outbox.ids]
  · rw [Outbox.refresh, part_mapEvent, if_neg hj]
    have hj' := hprogress.others j hj
    rw [part_ensure_of_ne hj] at hj'
    exact hj'
  · rw [hpart]
    refine sound_refreshed hv he fun d' hd' hp => ?_
    rcases hpending d' hd' hp with hold | ⟨d, -, hgoes⟩
    · exact ⟨hv.counted d' hold hp, hv.finite d' hold hp, hv.due d' hold hp⟩
    · obtain ⟨hlt, t, ht, hle⟩ := hgoes.pending hp
      rw [ht]
      exact ⟨hlt, WithTop.coe_ne_top, WithTop.coe_le_coe.mpr (hle.trans hnext)⟩
  · have hsubscribers : (part v (.event row.id)).subscribers registry = names := by
      simp [Part.subscribers, part, he, hnames]
    have hsubscribers' : (part (u.refresh now row.id) (.event row.id)).subscribers registry =
        names := by
      rw [hpart]
      simp [Part.subscribers, EventRow.refreshed, hnames]
    have hless := hprogress.less
    have htally := @tally_ensured_le now row.id names e.maxAttempts (v.deliveriesOf row.id)
    rw [hensured] at hless
    have hmissing : (names.filter fun h => !(u.deliveriesOf row.id).has (row.id, h)) = [] := by
      refine List.filter_eq_nil_iff.mpr fun name hname => ?_
      rw [hprogress.has, hensured, has_ensured hname]
      exact Bool.false_ne_true
    have hbefore : (part v (.event row.id)).owed names =
        1 + (v.deliveriesOf row.id).tally (fun _ => true) DeliveryRow.left +
          (names.filter fun h => !(v.deliveriesOf row.id).has (row.id, h)).length *
            e.maxAttempts := by
      simp only [Part.owed, part, he, if_neg hne, hid]
    rw [hsubscribers, hsubscribers', hpart, hbefore]
    by_cases htop : (e.refreshed now (u.deliveriesOf row.id).rows).nextAttemptAt = ⊤
    · have hnonneg : 0 ≤ (v.deliveriesOf row.id).tally (fun _ => true) DeliveryRow.left :=
        hv.tally_nonneg
      have hmissed : (0 : ℤ) ≤ (names.filter fun h =>
          !(v.deliveriesOf row.id).has (row.id, h)).length * e.maxAttempts := by positivity
      simp only [Part.owed, if_pos htop]
      linarith
    · -- a retry is to come, so that a delivery has been made
      have hmade : ds ≠ [] := by
        rintro rfl
        have hrow : ∃ d' ∈ (u.deliveriesOf row.id).rows, d'.status = .pending := by
          by_contra hnone
          push Not at hnone
          exact htop (haggregates.settled hnone)
        obtain ⟨d', hd', hp⟩ := hrow
        rcases hpending d' hd' hp with hold | ⟨d, hd, -⟩
        · obtain ⟨d, hd, hdd⟩ := hasWork_due hwork (hid ▸ List.ne_nil_of_mem hold)
          rw [hid] at hd
          refine List.not_mem_nil (hdue d ?_ hdd)
          rw [hensured]
          exact Table.mem_of_get? (Table.get?_insertAll_of_some (Table.get?_of_mem hd))
        · cases hd
      have hlength : (1 : ℤ) ≤ ds.length := by
        exact_mod_cast List.length_pos_iff.mpr hmade
      simp only [Part.owed, if_neg htop]
      rw [show (e.refreshed now (u.deliveriesOf row.id).rows).id = row.id from hid, hmissing]
      simp only [List.length_nil, Nat.cast_zero, zero_mul, add_zero]
      linarith

end Message

/-! ## One cycle -/

/-- A sum over distinct keys that falls at one of them. -/
theorem sum_map_lt {ks : List ℕ} (hks : ks.Nodup) {k : ℕ} (hk : k ∈ ks) {f g : ℕ → ℤ}
    (hlt : g k + 1 ≤ f k) (hsame : ∀ j, j ≠ k → g j = f j) :
    (ks.map g).sum + 1 ≤ (ks.map f).sum := by
  induction ks with
  | nil => cases hk
  | cons j ks ih =>
    obtain ⟨hj, hnd⟩ := List.nodup_cons.mp hks
    rw [List.map_cons, List.sum_cons, List.map_cons, List.sum_cons]
    by_cases hjk : j = k
    · subst hjk
      have hrest : ks.map g = ks.map f :=
        List.map_congr_left fun i hi => hsame i fun hij => hj (hij ▸ hi)
      rw [hrest]
      linarith
    · have := ih hnd ((List.mem_cons.mp hk).resolve_left (Ne.symm hjk))
      rw [hsame j hjk]
      linarith

section Cycle

variable {now horizon : ℤ} {config : DispatcherConfig} {id : ℕ} {v w : Outbox}

/-- A cycle once it has read its clock. -/
def cycleAt (fromStr : String → Option String) (registry : Registry) (config : DispatcherConfig)
    (now : ℤ) : Tx ℕ := do
  let batchSize := max config.batchSize 1
  let rows ← Prog.selectSkipLocked (fun v => (v.dueEvents now).map fun q => Key.event q.id)
    batchSize.toNat fun v ks => ks.filterMap (messageRow v)
  if rows.isEmpty then
    return 0
  let processed := rows.length
  Prog.forEach rows (processMessage fromStr registry config now)
  return processed

theorem runOneCycle_eq (fromStr : String → Option String) (registry : Registry)
    (config : DispatcherConfig) :
    runOneCycle fromStr registry config = ask .now >>= cycleAt fromStr registry config := rfl

theorem Advanced.work (h : Advanced fromStr registry horizon id v w) (hid : id ∈ v.ids) :
    w.work registry + 1 ≤ v.work registry := by
  rw [Outbox.work, Outbox.work, h.ids]
  exact sum_map_lt v.events.nodup hid h.less fun j hj => by rw [h.others j hj]

/-- The events of a batch, one after another. -/
theorem messages_advance {rows : List MessageRow} (hnodup : (rows.map MessageRow.id).Nodup)
    (hrows : ∀ row ∈ rows, ∃ e, v.events.get? row.id = some e ∧ row.topic = e.topic ∧
      e.nextAttemptAt ≠ ⊤ ∧ v.hasWork now e = true)
    (hv : v.Sound fromStr registry horizon) (hnext : now + longestDelay ≤ horizon)
    (h : (Prog.forEach rows (processMessage fromStr registry config now)).Runs v w (.ok ())) :
    w.Sound fromStr registry horizon ∧ w.work registry + rows.length ≤ v.work registry := by
  induction rows generalizing v with
  | nil =>
    obtain ⟨rfl, -⟩ := h
    exact ⟨hv, by simp⟩
  | cons row rows ih =>
    obtain ⟨u, h₁, h₂⟩ := Prog.runs_forEach_cons_ok.mp h
    obtain ⟨hrow, hrest⟩ := List.nodup_cons.mp hnodup
    obtain ⟨e, he, htopic, hne, hwork⟩ := hrows row List.mem_cons_self
    have hstep := processMessage_advances (hv row.id) he htopic hne hwork hnext h₁
    have hsound : u.Sound fromStr registry horizon := by
      intro j
      by_cases hj : j = row.id
      · exact hj ▸ hstep.sound
      · rw [hstep.others j hj]
        exact hv j
    have hid : row.id ∈ v.ids := by
      rw [← Table.key_of_get? he]
      exact List.mem_map_of_mem (Table.mem_of_get? he)
    have hadvanced := ih hrest (fun row' hr => ?_) hsound h₂
    · obtain ⟨hw, hless⟩ := hadvanced
      have := hstep.work hid
      refine ⟨hw, ?_⟩
      rw [List.length_cons]
      push_cast
      linarith
    · -- the other events are still as they were fetched
      have hne' : row'.id ≠ row.id := fun heq => hrow (heq ▸ List.mem_map_of_mem hr)
      obtain ⟨e', he', ht', hn', hw'⟩ := hrows row' (List.mem_cons_of_mem row hr)
      have hsame := hstep.others row'.id hne'
      have hevent : u.events.get? row'.id = some e' :=
        (congrArg Part.event hsame).trans he'
      refine ⟨e', hevent, ht', hn', ?_⟩
      have hds : u.deliveriesOf e'.id = v.deliveriesOf e'.id := by
        rw [Table.key_of_get? he']
        exact congrArg Part.deliveries hsame
      simpa only [Outbox.hasWork, hds] using hw'

theorem mem_dueEvents {e : EventRow} : e ∈ v.dueEvents now ↔
    e ∈ v.events.rows ∧ v.hasWork now e = true := by
  rw [Outbox.dueEvents, (List.perm_insertionSort _ _).mem_iff, List.mem_filter]

theorem ne_top_of_hasWork {e : EventRow} (h : v.hasWork now e = true) : e.nextAttemptAt ≠ ⊤ := by
  simp only [Outbox.hasWork, Bool.and_eq_true, decide_eq_true_eq] at h
  rintro htop
  rw [htop, top_le_iff] at h
  exact WithTop.coe_ne_top h.1

/-- What a cycle fetches: the first due events. -/
def Outbox.batch (now : ℤ) (limit : ℕ) (v : Outbox) : List MessageRow :=
  ((v.dueEvents now).take limit).map fun q => ⟨q.id, q.topic, q.payload⟩

theorem messageRows_eq (limit : ℕ) :
    (((v.dueEvents now).map fun q => Key.event q.id).take limit).filterMap (messageRow v) =
      v.batch now limit := by
  rw [Outbox.batch, ← List.map_take, List.filterMap_map, ← List.filterMap_eq_map]
  refine List.filterMap_congr fun q hq => ?_
  have hrow := Table.get?_of_mem (mem_dueEvents.mp (List.mem_of_mem_take hq)).1
  simp only [Function.comp_apply, messageRow]
  rw [hrow]
  rfl

theorem mem_batch {limit : ℕ} {row : MessageRow} (h : row ∈ v.batch now limit) :
    ∃ e, v.events.get? row.id = some e ∧ row = ⟨e.id, e.topic, e.payload⟩ ∧
      v.hasWork now e = true := by
  obtain ⟨e, he, rfl⟩ := List.mem_map.mp h
  obtain ⟨hrow, hwork⟩ := mem_dueEvents.mp (List.mem_of_mem_take he)
  exact ⟨e, Table.get?_of_mem hrow, rfl, hwork⟩

theorem nodup_batch (limit : ℕ) : ((v.batch now limit).map MessageRow.id).Nodup := by
  have hids : (v.batch now limit).map MessageRow.id =
      ((v.dueEvents now).take limit).map EventRow.id := by
    rw [Outbox.batch, List.map_map]
    rfl
  have hrows : ((v.events.rows.filter (v.hasWork now)).map EventRow.id).Nodup :=
    v.events.nodup.sublist (List.filter_sublist.map _)
  have hdue : ((v.dueEvents now).map EventRow.id).Nodup :=
    ((List.perm_insertionSort _ _).map EventRow.id).nodup_iff.mpr hrows
  rw [hids]
  exact hdue.sublist ((List.take_sublist _ _).map _)

theorem batch_eq_nil {limit : ℕ} (hlimit : 0 < limit) :
    v.batch now limit = [] ↔ v.dueEvents now = [] := by
  simp [Outbox.batch, hlimit.ne']

/-- A message whose payload is JSON does not stop the cycle. -/
theorem processMessage_completes {row : MessageRow} (hjson : fromStr row.payload = none) :
    (processMessage fromStr registry config now row).Completes := by
  unfold processMessage
  simp only [hjson]
  cases registry.get row.topic with
  | none => exact Prog.completes_update _ _
  | some names =>
    refine (Prog.completes_insertMissing _ _).bind fun _ => ?_
    refine (Prog.completes_select _).bind fun ds => ?_
    refine (Prog.completes_forEach fun d _ => ?_).bind fun _ => Prog.completes_update _ _
    unfold processDelivery
    split
    · refine (Prog.completes_ask _).bind fun result => ?_
      cases result <;> exact Prog.completes_update _ _
    · exact Prog.completes_update _ _

/-- A cycle goes through, leaves the events in order, and less to be done by what it has processed.
A cycle that processes nothing has found nothing to be due. -/
theorem cycleAt_advances (hv : v.Sound fromStr registry horizon)
    (hnext : now + longestDelay ≤ horizon) {r : Except String ℕ}
    (h : (cycleAt fromStr registry config now).Runs v w r) :
    ∃ n, r = .ok n ∧ w.Sound fromStr registry horizon ∧ w.work registry + n ≤ v.work registry ∧
      (n = 0 → w = v ∧ v.dueEvents now = []) := by
  have hlimit : 0 < (max config.batchSize 1).toNat := by
    have := le_max_right config.batchSize 1
    omega
  -- the fetch is a statement of its own
  have hbatch : (if (v.batch now (max config.batchSize 1).toNat).isEmpty then (pure 0 : Tx ℕ)
      else do
        Prog.forEach (v.batch now (max config.batchSize 1).toNat)
          (processMessage fromStr registry config now)
        pure (v.batch now (max config.batchSize 1).toNat).length).Runs v w r := by
    rw [← messageRows_eq]
    exact h
  generalize (max config.batchSize 1).toNat = limit at hbatch hlimit
  by_cases hempty : v.batch now limit = []
  · rw [hempty, if_pos List.isEmpty_nil] at hbatch
    obtain ⟨rfl, rfl⟩ := hbatch
    exact ⟨0, rfl, hv, by simp, fun _ => ⟨rfl, (batch_eq_nil hlimit).mp hempty⟩⟩
  · rw [if_neg (by simpa [List.isEmpty_iff] using hempty)] at hbatch
    rcases Prog.runs_bind.mp hbatch with ⟨u, _, hloop, hw, rfl⟩ | ⟨e, -, hloop⟩
    · subst hw
      obtain ⟨hsound, hless⟩ := messages_advance (nodup_batch limit) (fun row hrow => by
        obtain ⟨e, he, rfl, hwork⟩ := mem_batch hrow
        exact ⟨e, he, rfl, ne_top_of_hasWork hwork, hwork⟩) hv hnext hloop
      exact ⟨_, rfl, hsound, hless, fun hzero =>
        absurd (List.length_eq_zero_iff.mp hzero) hempty⟩
    · -- no message stops the cycle
      have hcompletes : (Prog.forEach (v.batch now limit)
          (processMessage fromStr registry config now)).Completes := by
        refine Prog.completes_forEach fun row hrow => ?_
        obtain ⟨e, he, rfl, -⟩ := mem_batch hrow
        exact processMessage_completes ((hv e.id).json e he)
      obtain ⟨_, herror⟩ := hcompletes _ _ _ hloop
      cases herror

/-- When every time has come and nothing is due, nothing is left to be done. -/
theorem settled_of_no_due (hv : v.Sound fromStr registry horizon) (hnow : horizon ≤ now)
    (hdue : v.dueEvents now = []) : v.Settled := by
  have hevents : ∀ e ∈ v.events.rows, e.nextAttemptAt = ⊤ := by
    intro e he
    by_contra hne
    have hpart : (part v (.event e.id)).event = some e := Table.get?_of_mem he
    have hsound := (hv e.id).later hnow
    have hwork : v.hasWork now e = true := by
      simp only [Outbox.hasWork, Bool.and_eq_true, decide_eq_true_eq, Bool.or_eq_true,
        List.isEmpty_iff]
      refine ⟨hsound.dueEvent e hpart hne, ?_⟩
      by_cases hrows : (v.deliveriesOf e.id).rows = []
      · exact .inl hrows
      · obtain ⟨d, hd, hp⟩ := hsound.pending_of_ne_top hpart hne hrows
        exact .inr (List.any_eq_true.mpr ⟨d, hd, isDue_iff.mpr ⟨hp, hsound.counted d hd hp,
          hsound.due d hd hp⟩⟩)
    have hin := mem_dueEvents.mpr ⟨he, hwork⟩
    rw [hdue] at hin
    cases hin
  refine ⟨hevents, fun d hd hp => ?_⟩
  have hin : d ∈ (v.deliveriesOf d.eventId).rows :=
    List.mem_filter.mpr ⟨hd, decide_eq_true rfl⟩
  cases he : v.events.get? d.eventId with
  | none =>
    have hempty := (hv d.eventId).known he
    exact List.not_mem_nil (hempty ▸ hin)
  | some e =>
    -- the event of a pending delivery is due when the delivery is
    have haggregates := (hv d.eventId).aggregated e he (List.ne_nil_of_mem hin)
    obtain ⟨⟨d', hd', hp', heq⟩, -⟩ := haggregates.earliest ⟨d, hin, hp⟩
    refine (hv d.eventId).finite d' hd' hp' (heq.trans ?_)
    exact hevents e (Table.mem_of_get? he)

theorem Outbox.Sound.work_nonneg (hv : v.Sound fromStr registry horizon) :
    0 ≤ v.work registry := by
  refine List.sum_nonneg fun n hn => ?_
  obtain ⟨id, -, rfl⟩ := List.mem_map.mp hn
  exact (hv id).owed_nonneg

end Cycle

/-! ## Cycle after cycle -/

/-- New events that are published to topics with subscribers leave an outbox in order. -/
theorem sound_of_published {v : Outbox} {horizon : ℤ} (hnone : v.deliveries.rows = [])
    (hevents : ∀ e ∈ v.events.rows, fromStr e.payload = none ∧ registry.get e.topic ≠ none ∧
      e.nextAttemptAt ≤ (horizon : Timestamp)) : v.Sound fromStr registry horizon := by
  intro id
  have hrows : (v.deliveriesOf id).rows = [] := by
    show v.deliveries.rows.filter _ = []
    rw [hnone, List.filter_nil]
  have hmem : ∀ d, d ∉ (v.deliveriesOf id).rows := by
    intro d hd
    rw [hrows] at hd
    cases hd
  exact ⟨Outbox.consistent_of_no_deliveries hnone id,
    fun e he => (hevents e (Table.mem_of_get? he)).1,
    fun e he => (hevents e (Table.mem_of_get? he)).2.1, fun d hd => absurd hd (hmem d),
    fun d hd => absurd hd (hmem d), fun e he _ => (hevents e (Table.mem_of_get? he)).2.2⟩

def everySecond (i : ℕ) : ℤ := i * second

/-- One event for two subscribers, of whom `b` never succeeds, after a number of cycles, one every
second. -/
def stubbornSubscriber : ℕ → Outbox
  | 0 => Outbox.empty.insertEvent (EventRow.published 1 "t" "\x7b\x7d" 0)
  | i + 1 => ((cycleAt (fun _ => none) twoSubscribers .default (everySecond i)).exec
      (fun _ => answers 0 0 ["b"]) 0 (stubbornSubscriber i)).1

end Slab.EventBus
