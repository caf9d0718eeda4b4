import Slab.EventBus.CycleSafety

/-!
# Garbage collection of delivered events

The transaction that deletes old delivered events, beside the dispatchers and the publishers, and
what the lock of an event row guards for it: garbage collection reads the row alone, so the row
must not call an event delivered before all of its deliveries are.

## Main definitions

- `deleteDeliveredOlderThan` — the transaction
- `BusRequest` — dispatcher cycles, publishers and garbage collections
- `Kept` — what holds of an event when nobody works on it
- `InCycle`, `Round` — what holds while a cycle works on it
- `retentionGuard` — `Kept` as a guard

## Main results

- `Round.update` — one delivery of a cycle
- `Round.refreshed` — the refresh after the last one
-/

namespace Slab.EventBus

open Txn

/-! ## The transaction -/

/-- `interval '1 day'`. -/
def day : ℤ := 86400 * second

/-- `status = $2 AND delivered_at IS NOT NULL AND delivered_at < NOW() - $1 * interval '1 day'`. -/
def EventRow.isExpired (now days : ℤ) (e : EventRow) : Bool :=
  decide (e.status = .delivered) &&
    match e.deliveredAt with
    | none => false
    | some t => decide (t < now - days * day)

def Outbox.expired (now days : ℤ) (v : Outbox) : List ℕ :=
  (v.events.rows.filter (EventRow.isExpired now days)).map EventRow.id

/-- `DELETE FROM _pg_events`, with `ON DELETE CASCADE` to the deliveries. -/
def Outbox.deleteEvents (ids : List ℕ) (v : Outbox) : Outbox :=
  { events := v.events.restrict fun e => e.id ∉ ids
    deliveries := v.deliveries.restrict fun d => d.eventId ∉ ids }

/-- The rows that the deletion of events `ids` locks. -/
def Outbox.rowsOf (ids : List ℕ) (v : Outbox) : List Key :=
  ids.map Key.event ++
    (v.deliveries.rows.filter fun d => d.eventId ∈ ids).map fun d => .delivery d.eventId d.handler

/-- The `DELETE` statement. -/
def deleteExpired (now days : ℤ) : Tx Unit :=
  .stmt (.wait fun v => v.rowsOf (v.expired now days)) (fun v => v.rowsOf (v.expired now days))
    (fun v _ => Outbox.deleteEvents (v.expired now days)) fun _ _ => .ret ()

/-- `delete_delivered_older_than_in_transaction`. The advisory lock only keeps other garbage
collections away, and is left out. -/
def deleteDeliveredOlderThan (retainDays : ℤ) : Tx Unit := do
  let days := max retainDays 1
  let now ← ask .now
  deleteExpired now days

/-! ## Requests -/

/-- Every topic of the registry has a subscriber. -/
def Registry.Registered (r : Registry) : Prop := ∀ topic, r.get topic ≠ some []

theorem Registry.registered_empty : Registry.empty.Registered := by
  intro topic h
  cases h

theorem lookup_map_of_key {β : Type} (f : String × β → String × β) (hf : ∀ e, (f e).1 = e.1)
    (l : List (String × β)) (a : String) :
    (l.map f).lookup a = (l.lookup a).map fun b => (f (a, b)).2 := by
  induction l with
  | nil => rfl
  | cons e l ih =>
    obtain ⟨k, b⟩ := e
    rw [List.map_cons, List.lookup_cons, List.lookup_cons, hf]
    by_cases h : a = k
    · subst h
      simp
    · simp only [beq_eq_false_iff_ne.mpr h]
      exact ih

/-- `register` adds a name to the topic and leaves the others as they are. -/
theorem Registry.registered_register {r r' : Registry} {topic name : String}
    (h : r.Registered) (hr : r.register topic name = some r') : r'.Registered := by
  intro topic' hnil
  unfold Registry.register at hr
  cases hget : r.get topic with
  | none =>
    rw [hget] at hr
    obtain rfl := Option.some.inj hr
    rw [Registry.get, List.lookup_append] at hnil
    rcases Option.or_eq_some_iff.mp hnil with hold | ⟨-, hnew⟩
    · exact h topic' hold
    · rw [List.lookup_cons] at hnew
      split at hnew
      · cases hnew
      · cases hnew
  | some names =>
    simp only [hget] at hr
    split at hr
    · cases hr
    · obtain rfl := Option.some.inj hr
      rw [Registry.get, lookup_map_of_key _ (fun e => by split <;> rfl)] at hnil
      obtain ⟨old, hold, hempty⟩ := Option.map_eq_some_iff.mp hnil
      dsimp only at hempty
      split at hempty
      · exact absurd hempty (by simp)
      · exact h topic' (hempty ▸ hold)

/-- A dispatcher process: the registry that it has frozen, built by `register`, and its
configuration; the only one that the back end passes is the default, of 300 seconds. -/
structure Dispatcher where
  registry : Registry
  config : DispatcherConfig
  registered : registry.Registered
  backoff : 0 ≤ config.backoffMaxSecs

example : 0 ≤ DispatcherConfig.default.backoffMaxSecs := by decide

/-- Transactions on the outbox, garbage collection among them. -/
inductive BusRequest where
  | cycle (dispatcher : Dispatcher)
  | publish (topic payload : String)
  | publishWithDelay (topic payload : String) (delay : ℕ)
  | gc (retainDays : ℤ)

def BusRequest.run (fromStr : String → Option String) : BusRequest → Tx Unit
  | cycle dispatcher => do
    let _ ← runOneCycle fromStr dispatcher.registry dispatcher.config
    return ()
  | publish topic payload => EventBus.publish topic payload
  | publishWithDelay topic payload delay => EventBus.publishWithDelay topic payload delay
  | gc retainDays => deleteDeliveredOlderThan retainDays

/-! ## What an event row promises -/

/-- The subscriber has answered the call that made the delivery. -/
def Answered (id : ℕ) (tr : List (Event BusRequest Answer)) (d : DeliveryRow) : Prop :=
  ∃ t payload, d.deliveredAt = some t ∧ .called (.invoke t id d.handler payload) .ok ∈ tr

/-- What holds of the deliveries of an event at any time. -/
structure Deliverable (id : ℕ) (p : Part) (tr : List (Event BusRequest Answer)) : Prop where
  known : p.event = none → p.deliveries.rows = []
  answered : ∀ d ∈ p.deliveries.rows, d.status = .delivered → Answered id tr d
  attempts : ∀ d ∈ p.deliveries.rows, d.status = .pending → d.attempts < d.maxAttempts

/-- What holds of an event when nobody works on it: its deliveries are older than its next
attempt, and a row that is delivered is not attempted again, and has only deliveries that were
made before it was. -/
structure Kept (id : ℕ) (p : Part) (tr : List (Event BusRequest Answer)) : Prop
    extends Deliverable id p tr where
  early : ∀ e, p.event = some e → ∀ d ∈ p.deliveries.rows, d.status = .delivered →
    ∀ t : ℤ, d.deliveredAt = some t → (t : Timestamp) ≤ e.nextAttemptAt
  settled : ∀ e, p.event = some e → e.status = .delivered →
    e.nextAttemptAt = ⊤ ∧ p.deliveries.rows ≠ [] ∧ ∃ t, e.deliveredAt = some t ∧
      ∀ d ∈ p.deliveries.rows, d.status = .delivered ∧ ∃ t' ≤ t, d.deliveredAt = some t'

/-- An event that a cycle at `now` may fetch. -/
def Due (now : ℤ) (p : Part) : Prop :=
  ∃ e, p.event = some e ∧ e.nextAttemptAt ≤ (now : Timestamp)

/-- What holds of an event while a cycle that began at `now` works on it. -/
structure InCycle (now : ℤ) (id : ℕ) (p : Part) (tr : List (Event BusRequest Answer)) : Prop
    extends Deliverable id p tr where
  due : Due now p
  past : ∀ d ∈ p.deliveries.rows, d.status = .delivered →
    ∀ t : ℤ, d.deliveredAt = some t → t ≤ now

/-- What holds of it before the deliveries `ds`: they are the due ones that are left. -/
structure Round (now : ℤ) (id : ℕ) (ds : List DeliveryRow) (p : Part)
    (tr : List (Event BusRequest Answer)) : Prop extends InCycle now id p tr where
  nonempty : p.deliveries.rows ≠ []
  toCome : ∀ d ∈ p.deliveries.rows, d.status = .pending →
    d.nextAttemptAt < (now : Timestamp) → d ∈ ds
  current : ∀ d ∈ ds, p.deliveries.get? (id, d.handler) = some d ∧ d.isDue now = true
  nodup : (ds.map DeliveryRow.handler).Nodup

variable {now : ℤ} {id : ℕ} {p : Part} {tr tr' : List (Event BusRequest Answer)}

theorem Answered.mono {d : DeliveryRow} (h : Answered id tr d) (hsub : tr ⊆ tr') :
    Answered id tr' d := by
  obtain ⟨t, payload, ht, hin⟩ := h
  exact ⟨t, payload, ht, hsub hin⟩

theorem Deliverable.mono (h : Deliverable id p tr) (hsub : tr ⊆ tr') : Deliverable id p tr' :=
  ⟨h.known, fun d hd hs => (h.answered d hd hs).mono hsub, h.attempts⟩

theorem InCycle.mono (h : InCycle now id p tr) (hsub : tr ⊆ tr') : InCycle now id p tr' :=
  ⟨h.toDeliverable.mono hsub, h.due, h.past⟩

theorem Round.mono {ds : List DeliveryRow} (h : Round now id ds p tr) (hsub : tr ⊆ tr') :
    Round now id ds p tr' :=
  ⟨h.toInCycle.mono hsub, h.nonempty, h.toCome, h.current, h.nodup⟩

/-- A fetched event was not delivered, and its deliveries are in the past. -/
theorem Kept.inCycle (h : Kept id p tr) (hdue : Due now p) : InCycle now id p tr := by
  refine ⟨h.toDeliverable, hdue, fun d hd hs t ht => ?_⟩
  obtain ⟨e, he, hnext⟩ := hdue
  exact WithTop.coe_le_coe.mp ((h.early e he d hd hs t ht).trans hnext)

/-- `ensure_deliveries` for a topic with a subscriber. -/
theorem InCycle.ensure {handlers : List String} (h : InCycle now id p tr) (hne : handlers ≠ []) :
    InCycle now id (p.ensure now id handlers) tr ∧
      (p.ensure now id handlers).deliveries.rows ≠ [] := by
  obtain ⟨e, he, hnext⟩ := h.due
  -- a row of the larger table is an old one or the row of a handler
  have hrow : ∀ d ∈ (p.ensure now id handlers).deliveries.rows,
      d ∈ p.deliveries.rows ∨ ∃ hd, d = DeliveryRow.ensured now id e.maxAttempts hd := by
    intro d hd
    rw [Part.ensure, he] at hd
    rcases Table.get?_insertAll (Table.get?_of_mem hd) with hold | ⟨-, hin⟩
    · exact .inl (Table.mem_of_get? hold)
    · obtain ⟨hd', -, rfl⟩ := List.mem_map.mp hin
      exact .inr ⟨hd', rfl⟩
  have hevent : (p.ensure now id handlers).event = some e := by rw [Part.ensure, he]
  refine ⟨⟨⟨fun hnone => ?_, fun d hd hs => ?_, fun d hd hs => ?_⟩, ⟨e, hevent, hnext⟩,
    fun d hd hs t ht => ?_⟩, ?_⟩
  · rw [hevent] at hnone
    cases hnone
  · rcases hrow d hd with hold | ⟨hd', rfl⟩
    · exact h.answered d hold hs
    · cases hs
  · rcases hrow d hd with hold | ⟨hd', rfl⟩
    · exact h.attempts d hold hs
    · exact e.maxAttempts.pos
  · rcases hrow d hd with hold | ⟨hd', rfl⟩
    · exact h.past d hold hs t ht
    · cases hs
  · obtain ⟨handler, rest, rfl⟩ := List.exists_cons_of_ne_nil hne
    have hfirst : (p.deliveries.insert (DeliveryRow.ensured now id e.maxAttempts handler)).has
        (id, handler) = true := by
      simp [Table.has_insert, DeliveryRow.ensured, DeliveryRow.key]
    obtain ⟨d, hd⟩ := Table.has_iff.mp hfirst
    have hget : (p.deliveries.insertAll ((handler :: rest).map
        (DeliveryRow.ensured now id e.maxAttempts))).get? (id, handler) = some d := by
      rw [List.map_cons, Table.insertAll, List.foldl_cons]
      exact Table.get?_insertAll_of_some hd
    rw [Part.ensure, he]
    exact List.ne_nil_of_mem (Table.mem_of_get? hget)

/-- A delivery row as a cycle at `now` leaves it. -/
structure Treated (now : ℤ) (id : ℕ) (tr : List (Event BusRequest Answer)) (d : DeliveryRow) :
    Prop where
  delivered : d.status = .delivered → d.deliveredAt = some now ∧
    ∃ payload, .called (.invoke now id d.handler payload) .ok ∈ tr
  pending : d.status = .pending → d.attempts < d.maxAttempts ∧
    (now : Timestamp) ≤ d.nextAttemptAt

/-- One delivery of a cycle. -/
theorem Round.update {d : DeliveryRow} {ds : List DeliveryRow} {f : DeliveryRow → DeliveryRow}
    {hf : ∀ d, (f d).key = d.key} (h : Round now id (d :: ds) p tr)
    (htreated : Treated now id tr (f d)) :
    Round now id ds ⟨p.event, p.deliveries.modify (id, d.handler) f hf⟩ tr := by
  obtain ⟨hget, -⟩ := h.current d List.mem_cons_self
  obtain ⟨hnot, hnodup⟩ := List.nodup_cons.mp h.nodup
  have hrow : ∀ d' ∈ (p.deliveries.modify (id, d.handler) f hf).rows,
      d' ∈ p.deliveries.rows ∧ d' ≠ d ∨ d' = f d := by
    intro d' hd'
    by_cases hkey : d'.key = (id, d.handler)
    · have hself := Table.get?_of_mem hd'
      rw [hkey, Table.get?_modify_self, hget] at hself
      exact .inr (Option.some.inj hself).symm
    · have hsame := Table.get?_of_mem hd'
      rw [Table.get?_modify_of_ne hkey] at hsame
      refine .inl ⟨Table.mem_of_get? hsame, fun heq => hkey ?_⟩
      rw [heq]
      exact Table.key_of_get? hget
  constructor
  · refine ⟨⟨fun hnone => ?_, fun d' hd' hs => ?_, fun d' hd' hs => ?_⟩, h.due,
      fun d' hd' hs t ht => ?_⟩
    · exact absurd (h.known hnone) h.nonempty
    · rcases hrow d' hd' with ⟨hold, -⟩ | rfl
      · exact h.answered d' hold hs
      · obtain ⟨hat, payload, hcall⟩ := htreated.delivered hs
        exact ⟨now, payload, hat, hcall⟩
    · rcases hrow d' hd' with ⟨hold, -⟩ | rfl
      · exact h.attempts d' hold hs
      · exact (htreated.pending hs).1
    · rcases hrow d' hd' with ⟨hold, -⟩ | rfl
      · exact h.past d' hold hs t ht
      · rw [(htreated.delivered hs).1] at ht
        exact (Option.some.inj ht).ge
  · have hlength : (p.deliveries.modify (id, d.handler) f hf).rows.length =
        p.deliveries.rows.length := by
      rw [Table.rows_modify, List.length_map]
    exact fun hnil => h.nonempty (List.length_eq_zero_iff.mp (hlength ▸ hnil ▸ rfl))
  · intro d' hd' hs hlt
    rcases hrow d' hd' with ⟨hold, hne⟩ | rfl
    · exact (List.mem_cons.mp (h.toCome d' hold hs hlt)).resolve_left hne
    · exact absurd hlt (not_lt_of_ge (htreated.pending hs).2)
  · intro d' hd'
    obtain ⟨hold, hdue⟩ := h.current d' (List.mem_cons_of_mem d hd')
    have hne : d'.handler ≠ d.handler := fun heq => hnot (heq ▸ List.mem_map_of_mem hd')
    refine ⟨?_, hdue⟩
    rw [Table.get?_modify_of_ne fun heq => hne (Prod.mk.inj heq).2]
    exact hold
  · exact hnodup

/-- The refresh after the last delivery: what is pending is not before `now`, and what is
delivered is not after it. -/
theorem Round.refreshed (h : Round now id [] p tr) :
    Kept id ⟨p.event.map (EventRow.refreshed now p.deliveries.rows), p.deliveries⟩ tr := by
  have hpending : ∀ d ∈ p.deliveries.rows, d.status = .pending →
      (now : Timestamp) ≤ d.nextAttemptAt := by
    intro d hd hs
    by_contra hlt
    exact List.not_mem_nil (h.toCome d hd hs (lt_of_not_ge hlt))
  refine ⟨⟨fun hnone => h.known (Option.map_eq_none_iff.mp hnone), h.answered, h.attempts⟩,
    fun e' he' d hd hs t ht => ?_, fun e' he' hdelivered => ?_⟩
  · obtain ⟨e, -, rfl⟩ := Option.map_eq_some_iff.mp he'
    have hagg := refreshed_aggregates now p.deliveries.rows e
    have hle : (t : Timestamp) ≤ (now : Timestamp) := WithTop.coe_le_coe.mpr (h.past d hd hs t ht)
    by_cases hex : ∃ d ∈ p.deliveries.rows, d.status = .pending
    · obtain ⟨⟨d', hd', hs', hnext⟩, -⟩ := hagg.earliest hex
      exact hle.trans (hnext ▸ hpending d' hd' hs')
    · rw [hagg.settled fun d' hd' hs' => hex ⟨d', hd', hs'⟩]
      exact le_top
  · obtain ⟨e, -, rfl⟩ := Option.map_eq_some_iff.mp he'
    have hagg := refreshed_aggregates now p.deliveries.rows e
    have hall := hagg.delivered.mp hdelivered
    refine ⟨hagg.settled fun d hd hs => ?_, h.nonempty, now, ?_, fun d hd => ⟨hall d hd, ?_⟩⟩
    · rw [hall d hd] at hs
      cases hs
    · have hnone : ∀ s : DeliveryStatus, s ≠ .delivered →
          (p.deliveries.rows.countP fun d => d.status = s) = 0 := by
        refine fun s hs => List.countP_eq_zero.mpr fun d hd heq => hs ?_
        rw [← of_decide_eq_true heq, hall d hd]
      exact if_pos ⟨hnone .pending DeliveryStatus.noConfusion,
        hnone .failed DeliveryStatus.noConfusion⟩
    · obtain ⟨t, -, ht, -⟩ := h.answered d hd (hall d hd)
      exact ⟨t, h.past d hd (hall d hd) t ht, ht⟩

/-- The close of an event that nobody has subscribed to. -/
theorem InCycle.failed {error : String} (h : InCycle now id p tr) :
    Kept id ⟨p.event.map (EventRow.markTerminalFailure error), p.deliveries⟩ tr := by
  refine ⟨⟨fun hnone => h.known (Option.map_eq_none_iff.mp hnone), h.answered, h.attempts⟩,
    fun e' he' d hd hs t ht => ?_, fun e' he' hdelivered => ?_⟩
  · obtain ⟨e, -, rfl⟩ := Option.map_eq_some_iff.mp he'
    exact le_top
  · obtain ⟨e, -, rfl⟩ := Option.map_eq_some_iff.mp he'
    cases hdelivered

/-! ## The guard -/

/-- The record entry is a call for the event of the key. -/
def regards : Key → Event BusRequest Answer → Bool
  | .event id, .called (.invoke _ i _ _) _ => decide (i = id)
  | _, _ => false

/-- The guard of the event rows. -/
def retentionGuard : Guard Outbox Key Part BusRequest Answer where
  proj k v := part v k
  about := regards
  inv k p tr := match k with
    | .event id => Kept id p tr
    | .delivery _ _ => True
  moves _ _ _ := True
  moves_refl _ _ := trivial
  moves_trans _ _ _ _ _ _ := trivial
  pre _ _ _ := True
  assumes _ _ _ _ := True

end Slab.EventBus
