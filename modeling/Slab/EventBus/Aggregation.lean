import Slab.EventBus.DeliveryBound

/-!
# The event row and its deliveries

An event row is to carry the aggregate of its deliveries, and an event that is not fetched any
more is to have no delivery left to make. Both hold along every run in which no dispatcher meets
an event with deliveries whose topic it has no subscriber for; the branch for a topic without
subscribers closes the event row and leaves the deliveries as they are.

## Main results

- `aggregated_of_run` — along every run without that branch on an event with deliveries
- `stranded_of_no_handler` — what the branch does to an event with a pending delivery
- `delivery_stranded` — a run that gets there
-/

namespace Slab.EventBus

open Txn

/-- What a run starts from: every event row carries the aggregate of its deliveries. -/
def Outbox.Consistent (v : Outbox) : Prop := ∀ id, (part v (.event id)).Consistent

theorem Outbox.consistent_of_no_deliveries {v : Outbox} (h : v.deliveries.rows = []) :
    v.Consistent := by
  intro id
  have hrows : (v.deliveriesOf id).rows = [] := by
    show v.deliveries.rows.filter _ = []
    rw [h, List.filter_nil]
  refine ⟨⟨fun _ => hrows, fun d hd => ?_⟩, fun _ _ hds => absurd hrows hds⟩
  exact absurd (hrows ▸ hd : d ∈ []) List.not_mem_nil

/-- Every event that a dispatcher has locked, and that has deliveries, is on a topic that its
registry knows. -/
def KeepsTopics (c : OutboxConfig) (a : Action Request Answer) : Prop :=
  c.Meets (fun r own _ v => r.Handles own v) a

/-- Along every run in which no dispatcher has locked an event with deliveries on a topic without
subscribers: an event that is not fetched any more has no pending delivery, and every event with
deliveries carries their aggregate. -/
theorem aggregated_of_run {fromStr : String → Option String} {initial : Outbox}
    (hinit : initial.Consistent) {c : OutboxConfig}
    (hr : Run (Request.run fromStr) KeepsTopics (Config.init initial) c) :
    (∀ e ∈ c.db.events.rows, e.nextAttemptAt = ⊤ →
      ∀ d ∈ (c.db.deliveriesOf e.id).rows, d.status ≠ .pending) ∧
    ∀ e ∈ c.db.events.rows, (c.db.deliveriesOf e.id).rows ≠ [] →
      Aggregates (c.db.deliveriesOf e.id).rows e := by
  have hstart : ∀ k, (deliveryGuard True).Holds k initial [] := by
    intro k
    cases k with
    | delivery id h => exact trivial
    | event id =>
      refine holds_iff.mpr ⟨fun h => ?_, fun _ => hinit id⟩
      cases initial.deliveries.get? (id, h) with
      | none => exact rfl
      | some d => exact ⟨Nat.zero_le _, fun _ => Nat.zero_le _⟩
  have hsound : (deliveryGuard True).Sound c :=
    Guard.Sound.run (fun r v tr _ => request_safe r v tr)
      (fun c a h i ans ha s hs _ => h i ans ha s hs) (Guard.Sound.init hstart) hr
  have hcons : ∀ e ∈ c.db.events.rows, (part c.db (.event e.id)).Consistent ∧
      c.db.events.get? e.id = some e := fun e he =>
    ⟨(holds_iff.mp (hsound.holds (.event e.id))).2 trivial, Table.get?_of_mem he⟩
  have haggregated : ∀ e ∈ c.db.events.rows, (c.db.deliveriesOf e.id).rows ≠ [] →
      Aggregates (c.db.deliveriesOf e.id).rows e := fun e he hds =>
    (hcons e he).1.aggregated e (hcons e he).2 hds
  refine ⟨fun e he htop d hd hpending => ?_, haggregated⟩
  -- a pending delivery has a time, and the row's time is no later
  have hagg := haggregated e he (List.ne_nil_of_mem hd)
  have hle : e.nextAttemptAt ≤ d.nextAttemptAt :=
    (hagg.earliest ⟨d, hd, hpending⟩).2 ⟨d, hd, hpending, rfl⟩
  rw [htop, top_le_iff] at hle
  exact (hcons e he).1.finite d hd hpending hle

/-- The test that decides `Request.Handles`. -/
def Request.handles (r : Request) (own : List Key) (v : Outbox) : Bool :=
  match r with
  | cycle registry _ => own.all fun
    | .event id =>
      match v.events.get? id with
      | some e => (v.deliveriesOf id).rows.isEmpty || (registry.get e.topic).isSome
      | none => true
    | .delivery _ _ => true
  | _ => true

theorem Request.handles_of_test {r : Request} {own : List Key} {v : Outbox}
    (h : r.handles own v = true) : r.Handles own v := by
  cases r with
  | cycle registry config =>
    intro id e hown he hds
    have := List.all_eq_true.mp h _ hown
    simp only [he, Bool.or_eq_true, List.isEmpty_iff] at this
    exact Option.isSome_iff_ne_none.mp (this.resolve_left hds)
  | publish topic payload => exact trivial
  | publishWithDelay topic payload delay => exact trivial

/-- With the subscribers registered throughout, the event ends up delivered. -/
theorem aggregated_of_run_twoDispatchers :
    ∃ c, Run (Request.run fun _ => none) KeepsTopics (Config.init .empty : OutboxConfig) c ∧
      ∃ e ∈ c.db.events.rows, (c.db.deliveriesOf e.id).rows.length = 2 ∧
        e.status = .delivered ∧ e.nextAttemptAt = ⊤ ∧
        Aggregates (c.db.deliveriesOf e.id).rows e ∧
        ∀ d ∈ (c.db.deliveriesOf e.id).rows, d.status ≠ .pending := by
  have hplay : ((Config.init .empty : OutboxConfig).play (Request.run fun _ => none)
      (Config.meets fun r own _ v => r.handles own v) twoDispatchers).map (fun c =>
        ((c.db.events.get? 1).map fun e => (e.nextAttemptAt, e.status),
          (c.db.deliveriesOf 1).rows.length)) = some (some (⊤, .delivered), 2) := by
    decide +kernel
  obtain ⟨c, hc, hfacts⟩ := Option.map_eq_some_iff.mp hplay
  obtain ⟨hevent, hlength⟩ := Prod.mk.inj hfacts
  obtain ⟨e, he, hrow⟩ := Option.map_eq_some_iff.mp hevent
  obtain ⟨htop, hstatus⟩ := Prod.mk.inj hrow
  obtain ⟨hmem, hid⟩ := Table.get?_eq_some.mp he
  have hrun : Run (Request.run fun _ => none) KeepsTopics (Config.init .empty : OutboxConfig) c :=
    Run.of_play (fun c a h => Config.meets_of_test (fun _ _ _ _ => Request.handles_of_test) h)
      .refl hc
  obtain ⟨hsettled, haggregated⟩ :=
    aggregated_of_run (Outbox.consistent_of_no_deliveries rfl) hrun
  have hne : (c.db.deliveriesOf e.id).rows ≠ [] := by
    intro hnil
    rw [← hid, hnil] at hlength
    cases hlength
  exact ⟨c, hrun, e, hmem, hid ▸ hlength, hstatus, htop, haggregated e hmem hne,
    hsettled e hmem htop⟩

/-- What a dispatcher without a subscriber for the topic makes of an event with a pending
delivery: the row is closed, and the delivery is as it was. -/
theorem stranded_of_no_handler {fromStr : String → Option String} {registry : Registry}
    {config : DispatcherConfig} {now : ℤ} {row : MessageRow} {v w : Outbox}
    (hget : registry.get row.topic = none)
    (h : (processMessage fromStr registry config now row).Runs v w (.ok ()))
    {e : EventRow} (he : v.events.get? row.id = some e) {d : DeliveryRow}
    (hd : d ∈ (v.deliveriesOf row.id).rows) :
    ∃ e', w.events.get? row.id = some e' ∧ e'.status = .failed ∧ e'.nextAttemptAt = ⊤ ∧
      d ∈ (w.deliveriesOf row.id).rows := by
  cases hjson : fromStr row.payload with
  | some error =>
    simp only [processMessage, hjson, Prog.runs_fail] at h
    cases h.2
  | none =>
    simp only [processMessage, hjson, hget, markEventsTerminalFailure, Prog.runs_update] at h
    obtain ⟨rfl, -⟩ := h
    refine ⟨e.markTerminalFailure s!"no_handler_for_topic:{row.topic}", ?_, rfl, rfl, hd⟩
    have hmodify := congrArg Part.event (part_mapEvent row.id
      (EventRow.markTerminalFailure s!"no_handler_for_topic:{row.topic}")
      (EventRow.markTerminalFailure_id s!"no_handler_for_topic:{row.topic}") v row.id)
    rw [if_pos rfl, he] at hmodify
    exact hmodify

/-! ## A registry that loses a topic -/

/-- The subscribers `a` and `b` fail once; the dispatcher that meets the event again has no
subscriber for its topic. -/
def topicDropped : List (Action Request Answer) :=
  [.start (.publish "t" "{}"), .start (.cycle twoSubscribers .default),
    .start (.cycle .empty .default)] ++
  List.replicate 4 (.step 0 (answers 10 1 [])) ++
  List.replicate 10 (.step 1 (answers 20 0 ["a", "b"])) ++
  List.replicate 4 (.step 2 (answers (20 + 2 * second) 0 []))

/-- The event is never fetched again, and both deliveries are still pending. -/
theorem delivery_stranded :
    ∃ c, Run (Request.run fun _ => none) (fun _ _ => True) (Config.init .empty : OutboxConfig) c ∧
      ∃ e ∈ c.db.events.rows, e.nextAttemptAt = ⊤ ∧ e.status = .failed ∧
        ∃ d ∈ (c.db.deliveriesOf e.id).rows, d.status = .pending ∧
          ¬ Aggregates (c.db.deliveriesOf e.id).rows e := by
  have hplay : ((Config.init .empty : OutboxConfig).play (Request.run fun _ => none)
      (fun _ _ => true) topicDropped).map (fun c =>
        ((c.db.events.get? 1).map fun e => (e.nextAttemptAt, e.status),
          (c.db.deliveriesOf 1).rows.map fun d => (d.handler, d.status))) =
        some (some (⊤, .failed), [("a", .pending), ("b", .pending)]) := by
    decide +kernel
  obtain ⟨c, hc, hfacts⟩ := Option.map_eq_some_iff.mp hplay
  obtain ⟨hevent, hdeliveries⟩ := Prod.mk.inj hfacts
  obtain ⟨e, he, hrow⟩ := Option.map_eq_some_iff.mp hevent
  obtain ⟨htop, hstatus⟩ := Prod.mk.inj hrow
  obtain ⟨hmem, hid⟩ := Table.get?_eq_some.mp he
  have hall : ∀ d ∈ (c.db.deliveriesOf 1).rows, d.status = .pending := by
    intro d hd
    have := List.mem_map_of_mem (f := fun d => (d.handler, d.status)) hd
    rw [hdeliveries] at this
    simp only [List.mem_cons, Prod.mk.injEq, List.not_mem_nil, or_false] at this
    exact this.elim And.right And.right
  have hne : (c.db.deliveriesOf 1).rows ≠ [] := by
    intro hnil
    rw [hnil] at hdeliveries
    cases hdeliveries
  obtain ⟨d, hd⟩ := List.exists_mem_of_ne_nil _ hne
  refine ⟨c, Run.of_play (fun _ _ _ => trivial) .refl hc, e, hmem, htop, hstatus, ?_⟩
  rw [hid]
  refine ⟨d, hd, hall d hd, fun hagg => ?_⟩
  obtain ⟨d', hd', hfailed⟩ := hagg.failed.mp hstatus
  rw [hall d' hd'] at hfailed
  cases hfailed

end Slab.EventBus
