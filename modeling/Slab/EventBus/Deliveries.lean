import Slab.EventBus.Dispatcher
import Slab.Txn.Record

/-!
# What an event row guards

The lock of an event row protects the row, all deliveries of the event, and the record of the
calls made for it. This file states what has to hold of them when nobody works on the event,
how they may develop, and what a dispatcher has to know before it calls a subscriber.

## Main definitions

- `Part` — an event row with the deliveries of the event
- `DeliveryOk` — a delivery has used up an attempt for every call
- `Develops` — how a delivery may change, together with the number of its calls
- `Aggregates` — what the event row says about the deliveries
- `deliveryGuard` — all of it as a guard
-/

namespace Slab.EventBus

open Txn

/-- An event row and the deliveries of the event. -/
structure Part where
  event : Option EventRow
  deliveries : Table DeliveryRow.key

def part (v : Outbox) : Key → Part
  | .event id => ⟨v.events.get? id, v.deliveriesOf id⟩
  | .delivery _ _ => ⟨none, .empty⟩

/-! ## Calls -/

/-- The record entry is a call of `handler` for event `id`. -/
def invokes (id : ℕ) (handler : String) : Event Request Answer → Bool
  | .called (.invoke _ i h _) _ => decide (i = id) && decide (h = handler)
  | _ => false

/-- The calls of `handler` for event `id`. -/
def invocations (id : ℕ) (handler : String) (tr : List (Event Request Answer)) : ℕ :=
  tr.countP (invokes id handler)

/-- The record entry is a call for the event of the key. -/
def concerns : Key → Event Request Answer → Bool
  | .event id, .called (.invoke _ i _ _) _ => decide (i = id)
  | _, _ => false

theorem concerns_of_invokes {id : ℕ} {handler : String} (e : Event Request Answer)
    (h : invokes id handler e = true) : concerns (.event id) e = true := by
  match e, h with
  | .called (.invoke _ i hd _) _, h => exact (Bool.and_eq_true _ _ ▸ h).1

theorem invokes_committed (id : ℕ) (handler : String) (r : Request) :
    invokes id handler (.committed r : Event Request Answer) = false := rfl

theorem invocations_append (id : ℕ) (handler : String) (tr es : List (Event Request Answer)) :
    invocations id handler (tr ++ es) = invocations id handler tr + invocations id handler es :=
  List.countP_append

theorem invocations_filter (id : ℕ) (handler : String) (tr : List (Event Request Answer)) :
    invocations id handler (tr.filter (concerns (.event id))) = invocations id handler tr := by
  rw [invocations, List.countP_filter, invocations]
  refine List.countP_congr fun e _ => ?_
  simp only [Bool.and_eq_true, and_iff_left_iff_imp]
  exact concerns_of_invokes e

/-! ## Deliveries -/

/-- A delivery that has been called `n` times: no more than it may be, and while it is pending
it has counted every call. Nothing has been called without a delivery row. -/
def DeliveryOk : Option DeliveryRow → ℕ → Prop
  | none, n => n = 0
  | some d, n => n ≤ d.maxAttempts ∧ (d.status = .pending → n ≤ d.attempts)

/-- From one moment to a later one, a delivery row stays, with its bound; calls keep to the
bound; and once it is delivered or failed it does not change and is not called any more. -/
def Develops : Option DeliveryRow → ℕ → Option DeliveryRow → ℕ → Prop
  | none, n, none, n' => n' = n
  | none, n, some d', n' => n = 0 → n' ≤ d'.maxAttempts
  | some _, _, none, _ => False
  | some d, n, some d', n' => d'.maxAttempts = d.maxAttempts ∧
      (n ≤ d.maxAttempts → n' ≤ d.maxAttempts) ∧ (d.status ≠ .pending → d' = d ∧ n' = n)

theorem Develops.refl (d : Option DeliveryRow) (n : ℕ) : Develops d n d n := by
  cases d with
  | none => exact rfl
  | some d => exact ⟨rfl, fun h => h, fun _ => ⟨rfl, rfl⟩⟩

theorem Develops.trans {d d' d'' : Option DeliveryRow} {n n' n'' : ℕ}
    (h : Develops d n d' n') (h' : Develops d' n' d'' n'') : Develops d n d'' n'' := by
  match d, d', d'', h, h' with
  | none, none, none, h, h' => exact Eq.trans h' h
  | none, none, some d'', h, h' => exact fun hn => h' (Eq.trans h hn)
  | none, some d', some d'', h, h' =>
    intro hn
    rw [h'.1]
    exact h'.2.1 (h hn)
  | some d, some d', some d'', h, h' =>
    refine ⟨h'.1.trans h.1, fun hn => ?_, fun ht => ?_⟩
    · have := h'.2.1
      rw [h.1] at this
      exact this (h.2.1 hn)
    · obtain ⟨rfl, hn⟩ := h.2.2 ht
      obtain ⟨heq, hn'⟩ := h'.2.2 ht
      exact ⟨heq, hn'.trans hn⟩

/-! ## The aggregate -/

/-- What an event row says about its deliveries: a failed one dominates, then a pending one;
the next attempt is the earliest of the pending ones. -/
structure Aggregates (ds : List DeliveryRow) (e : EventRow) : Prop where
  failed : e.status = .failed ↔ ∃ d ∈ ds, d.status = .failed
  pending : e.status = .pending ↔
    (∀ d ∈ ds, d.status ≠ .failed) ∧ ∃ d ∈ ds, d.status = .pending
  delivered : e.status = .delivered ↔ ∀ d ∈ ds, d.status = .delivered
  earliest : (∃ d ∈ ds, d.status = .pending) →
    IsLeast {t | ∃ d ∈ ds, d.status = .pending ∧ d.nextAttemptAt = t} e.nextAttemptAt
  settled : (∀ d ∈ ds, d.status ≠ .pending) → e.nextAttemptAt = ⊤

/-- `MIN` over a list that is not empty. -/
theorem isLeast_foldr_min {ts : List Timestamp} (h : ts ≠ []) :
    IsLeast {t | t ∈ ts} (ts.foldr min ⊤) := by
  induction ts with
  | nil => exact absurd rfl h
  | cons t ts ih =>
    rw [List.foldr_cons]
    cases ts with
    | nil => simp [IsLeast, lowerBounds]
    | cons u us =>
      obtain ⟨hmem, hle⟩ := ih (List.cons_ne_nil u us)
      constructor
      · rcases min_choice t ((u :: us).foldr min ⊤) with h | h
        · rw [h]
          exact List.mem_cons_self
        · rw [h]
          exact List.mem_cons_of_mem t hmem
      · intro s hs
        rcases List.mem_cons.mp hs with rfl | hs
        · exact min_le_left _ _
        · exact (min_le_right _ _).trans (hle hs)

/-- `refresh_message_state` writes the aggregate. -/
theorem refreshed_aggregates (now : ℤ) (ds : List DeliveryRow) (e : EventRow) :
    Aggregates ds (e.refreshed now ds) := by
  have hfailed : 0 < (ds.countP fun d => d.status = .failed) ↔ ∃ d ∈ ds, d.status = .failed := by
    simp [List.countP_pos_iff]
  have hpending : 0 < (ds.countP fun d => d.status = .pending) ↔
      ∃ d ∈ ds, d.status = .pending := by
    simp [List.countP_pos_iff]
  have hstatus : (e.refreshed now ds).status =
      if ∃ d ∈ ds, d.status = .failed then .failed
      else if ∃ d ∈ ds, d.status = .pending then .pending else .delivered := by
    simp only [EventRow.refreshed, gt_iff_lt, hfailed, hpending]
  have hnext : (e.refreshed now ds).nextAttemptAt =
      if ∃ d ∈ ds, d.status = .pending then earliestPending ds else ⊤ := by
    simp only [EventRow.refreshed, gt_iff_lt, hpending]
  have hall : (¬ ∃ d ∈ ds, d.status = .failed) → (¬ ∃ d ∈ ds, d.status = .pending) →
      ∀ d ∈ ds, d.status = .delivered := by
    intro hf hp d hd
    cases hs : d.status with
    | pending => exact absurd ⟨d, hd, hs⟩ hp
    | delivered => rfl
    | failed => exact absurd ⟨d, hd, hs⟩ hf
  constructor
  · rw [hstatus]
    split_ifs with hf hp <;> simp [hf]
  · rw [hstatus]
    split_ifs with hf hp
    · obtain ⟨d, hd, hs⟩ := hf
      simp only [false_iff, not_and]
      exact fun h => absurd hs (h d hd)
    · simp only [true_iff]
      exact ⟨fun d hd hs => hf ⟨d, hd, hs⟩, hp⟩
    · simp [hp]
  · rw [hstatus]
    split_ifs with hf hp
    · obtain ⟨d, hd, hs⟩ := hf
      simp only [false_iff]
      intro h
      rw [h d hd] at hs
      cases hs
    · obtain ⟨d, hd, hs⟩ := hp
      simp only [false_iff]
      intro h
      rw [h d hd] at hs
      cases hs
    · simp only [true_iff]
      exact hall hf hp
  · intro hp
    rw [hnext, if_pos hp]
    have hset : {t | ∃ d ∈ ds, d.status = .pending ∧ d.nextAttemptAt = t} =
        {t | t ∈ (ds.filter fun d => d.status = .pending).map DeliveryRow.nextAttemptAt} := by
      ext t
      simp [and_assoc]
    rw [hset]
    refine isLeast_foldr_min ?_
    obtain ⟨d, hd, hs⟩ := hp
    intro hnil
    have hin : d ∈ ds.filter fun d => d.status = .pending :=
      List.mem_filter.mpr ⟨hd, by simpa using hs⟩
    rw [List.map_eq_nil_iff.mp hnil] at hin
    cases hin
  · intro hp
    rw [hnext, if_neg]
    rintro ⟨d, hd, hs⟩
    exact hp d hd hs

/-- What holds of the deliveries of an event at any time: they belong to an event that is
there, and a pending one is due at some time. -/
structure Part.Valid (p : Part) : Prop where
  known : p.event = none → p.deliveries.rows = []
  finite : ∀ d ∈ p.deliveries.rows, d.status = .pending → d.nextAttemptAt ≠ ⊤

/-- What holds of an event when nobody works on it: its row carries the aggregate of its
deliveries, if it has any. -/
structure Part.Consistent (p : Part) : Prop extends p.Valid where
  aggregated : ∀ e, p.event = some e → p.deliveries.rows ≠ [] → Aggregates p.deliveries.rows e

/-! ## The guard -/

/-- Every locked event that has deliveries is on a topic that the registry of the cycle
knows. -/
def Request.Handles (r : Request) (own : List Key) (v : Outbox) : Prop :=
  match r with
  | cycle registry _ => ∀ id e, Key.event id ∈ own → v.events.get? id = some e →
      (v.deliveriesOf id).rows ≠ [] → registry.get e.topic ≠ none
  | _ => True

/-- The guard of the outbox. With `handled` it also keeps the aggregates right, and assumes of
every cycle that it handles the topics of the events it has locked. -/
def deliveryGuard (handled : Prop) : Guard Outbox Key Part Request Answer where
  proj k v := part v k
  about := concerns
  inv k p tr := match k with
    | .event id =>
      (∀ h, DeliveryOk (p.deliveries.get? (id, h)) (invocations id h tr)) ∧
        (handled → p.Consistent)
    | .delivery _ _ => True
  moves k s t := match k with
    | .event id => ∀ h, Develops (s.1.deliveries.get? (id, h)) (invocations id h s.2)
        (t.1.deliveries.get? (id, h)) (invocations id h t.2)
    | .delivery _ _ => True
  moves_refl k s := by
    cases k with
    | event id => exact fun h => Develops.refl _ _
    | delivery id h => exact trivial
  moves_trans k s t u hst htu := by
    cases k with
    | event id => exact fun h => (hst h).trans (htu h)
    | delivery id h => exact trivial
  pre q v tr := match q with
    | .invoke now id h _ => ∃ d, v.deliveries.get? (id, h) = some d ∧ d.status = .pending ∧
        d.nextAttemptAt ≤ (now : Timestamp) ∧ invocations id h tr < d.maxAttempts
    | _ => True
  assumes r own _ v := handled → r.Handles own v

/-! ## Parts under the writes of a dispatcher -/

theorem get?_deliveriesOf (v : Outbox) (id : ℕ) (handler : String) :
    (v.deliveriesOf id).get? (id, handler) = v.deliveries.get? (id, handler) := by
  refine Table.get?_restrict (fun d hd => ?_) _
  obtain ⟨rfl, -⟩ := Prod.mk.inj hd
  exact decide_eq_true rfl

theorem mem_deliveriesOf {v : Outbox} {id : ℕ} {d : DeliveryRow}
    (h : d ∈ (v.deliveriesOf id).rows) :
    d.eventId = id ∧ v.deliveries.get? (id, d.handler) = some d := by
  obtain ⟨hd, he⟩ := List.mem_filter.mp h
  have hid : d.eventId = id := by simpa using he
  exact ⟨hid, hid ▸ Table.get?_of_mem hd⟩

theorem part_mapDelivery (id : ℕ) (handler : String) (f : DeliveryRow → DeliveryRow)
    (hf : ∀ d, (f d).key = d.key) (v : Outbox) (j : ℕ) :
    part (v.mapDelivery id handler f hf) (.event j) =
      ⟨v.events.get? j, (v.deliveriesOf j).modify (id, handler) f hf⟩ := by
  simp only [part, Outbox.mapDelivery, Outbox.deliveriesOf, Part.mk.injEq, true_and]
  refine Table.restrict_modify (fun d => ?_) _
  have hid : (f d).eventId = d.eventId := (Prod.mk.inj (hf d)).1
  rw [hid]

theorem part_mapDelivery_of_ne {id j : ℕ} (hj : j ≠ id) (handler : String)
    (f : DeliveryRow → DeliveryRow) (hf : ∀ d, (f d).key = d.key) (v : Outbox) :
    part (v.mapDelivery id handler f hf) (.event j) = part v (.event j) := by
  rw [part_mapDelivery, part, Table.modify_of_none]
  refine Table.get?_restrict_eq_none (fun d hd => ?_) _
  obtain ⟨rfl, -⟩ := Prod.mk.inj hd
  exact decide_eq_false (Ne.symm hj)

theorem part_mapEvent (id : ℕ) (f : EventRow → EventRow) (hf : ∀ e, (f e).id = e.id)
    (v : Outbox) (j : ℕ) : part (v.mapEvent id f hf) (.event j) =
      ⟨if j = id then (v.events.get? j).map f else v.events.get? j, v.deliveriesOf j⟩ := by
  simp only [part, Outbox.mapEvent, Part.mk.injEq]
  exact ⟨Table.get?_modify j, rfl⟩

theorem part_ensure_of_ne {id j : ℕ} (hj : j ≠ id) (now : ℤ) (handlers : List String)
    (v : Outbox) : part (v.ensure now id handlers) (.event j) = part v (.event j) := by
  unfold Outbox.ensure
  cases v.events.get? id with
  | none => rfl
  | some q =>
    simp only [part, Outbox.deliveriesOf, Part.mk.injEq, true_and]
    refine Table.restrict_insertAll_of_false (fun d hd => ?_) _
    obtain ⟨h, -, rfl⟩ := List.mem_map.mp hd
    exact decide_eq_false (Ne.symm hj)

/-- What `ensure` does to the deliveries of its own event. -/
def Part.ensure (now : ℤ) (id : ℕ) (handlers : List String) (p : Part) : Part :=
  match p.event with
  | none => p
  | some q =>
    { p with
      deliveries := p.deliveries.insertAll
        (handlers.map (DeliveryRow.ensured now id q.maxAttempts)) }

theorem part_ensure_self (now : ℤ) (id : ℕ) (handlers : List String) (v : Outbox) :
    part (v.ensure now id handlers) (.event id) =
      (part v (.event id)).ensure now id handlers := by
  unfold Outbox.ensure Part.ensure
  cases hq : v.events.get? id with
  | none => simp [part, hq]
  | some q =>
    simp only [part, hq, Outbox.deliveriesOf, Part.mk.injEq, true_and]
    refine Table.restrict_insertAll (fun d hd e he => ?_) _
    obtain ⟨h, -, rfl⟩ := List.mem_map.mp hd
    obtain ⟨hid, -⟩ := Prod.mk.inj he
    exact decide_eq_true hid

theorem part_insertEvent (row : EventRow) (v : Outbox) (j : ℕ) :
    part (v.insertEvent row) (.event j) =
      ⟨(v.events.insert row).get? j, v.deliveriesOf j⟩ := rfl

end Slab.EventBus
