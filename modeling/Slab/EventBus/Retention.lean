import Slab.EventBus.Gc
import Slab.EventBus.DeliveryBound

/-!
# Garbage collection is safe

Every transaction keeps what the event rows promise, so an event that garbage collection deletes
was processed, has only deliveries that were made, and was last delivered longer ago than the
retention.

## Main results

- `processMessage_retains`, `deleteExpired_retains` — one event, one collection
- `BusRequest.run_retains` — every request
- `gc_safe` — along every run
-/

namespace Slab.EventBus

open Txn

variable {r : BusRequest} {id : ℕ} {now : ℤ} {own : List Key} {v v' : Outbox}
  {tr tr' : List (Event BusRequest Answer)} {todo : List MessageRow}
  {P Q : Part → List (Event BusRequest Answer) → Prop}

theorem retained_iff : retentionGuard.Holds (.event id) v tr ↔
    Kept id (part v (.event id)) (retentionGuard.log (.event id) tr) := Iff.rfl

/-- An event that is not there has nothing to promise. -/
theorem kept_empty (id : ℕ) (tr : List (Event BusRequest Answer)) :
    Kept id ⟨none, .empty⟩ tr := by
  constructor
  · exact ⟨fun _ => rfl, fun d hd => absurd hd List.not_mem_nil,
      fun d hd => absurd hd List.not_mem_nil⟩
  · intro e he
    cases he
  · intro e he
    cases he

/-! ## What a cycle knows -/

/-- While event `id` is worked on, of which `P` is known: the other rows are in order, and the
events `todo` are still due. -/
structure Handling (now : ℤ) (todo : List MessageRow) (id : ℕ)
    (P : Part → List (Event BusRequest Answer) → Prop) (own : List Key) (v : Outbox)
    (tr : List (Event BusRequest Answer)) : Prop where
  owned : .event id ∈ own
  others : ∀ k ∈ own, k ≠ .event id → retentionGuard.Holds k v tr
  due : ∀ row ∈ todo, row.id ≠ id ∧ .event row.id ∈ own ∧ Due now (part v (.event row.id))
  self : P (part v (.event id)) (retentionGuard.log (.event id) tr)

/-- Between two events. -/
structure Waiting (now : ℤ) (todo : List MessageRow) (own : List Key) (v : Outbox)
    (tr : List (Event BusRequest Answer)) : Prop where
  holds : ∀ k ∈ own, retentionGuard.Holds k v tr
  due : ∀ row ∈ todo, .event row.id ∈ own ∧ Due now (part v (.event row.id))
  nodup : (todo.map MessageRow.id).Nodup

theorem Handling.rely (h : Handling now todo id P own v tr)
    (hr : retentionGuard.Rely own v tr v' tr') : Handling now todo id P own v' tr' := by
  refine ⟨h.owned, fun k hk hne => ?_, fun row hrow => ?_, ?_⟩
  · obtain ⟨hproj, hlog⟩ := hr.kept k hk
    have hold := h.others k hk hne
    unfold Guard.Holds at hold ⊢
    rwa [hproj, hlog]
  · obtain ⟨hne, hown, hdue⟩ := h.due row hrow
    have hproj : part v' (.event row.id) = part v (.event row.id) := (hr.kept _ hown).1
    exact ⟨hne, hown, hproj ▸ hdue⟩
  · obtain ⟨hproj, hlog⟩ := hr.kept _ h.owned
    have hpart : part v' (.event id) = part v (.event id) := hproj
    rw [hpart, hlog]
    exact h.self

theorem Waiting.rely (h : Waiting now todo own v tr) (hr : retentionGuard.Rely own v tr v' tr') :
    Waiting now todo own v' tr' := by
  refine ⟨fun k _ => hr.holds h.holds k, fun row hrow => ?_, h.nodup⟩
  obtain ⟨hown, hdue⟩ := h.due row hrow
  have hproj : part v' (.event row.id) = part v (.event row.id) := (hr.kept _ hown).1
  exact ⟨hown, hproj ▸ hdue⟩

theorem Handling.mono (h : Handling now todo id P own v tr) (hPQ : ∀ p tr, P p tr → Q p tr) :
    Handling now todo id Q own v tr :=
  ⟨h.owned, h.others, h.due, hPQ _ _ h.self⟩

/-- To start on the next event. -/
theorem Waiting.handling {row : MessageRow} (h : Waiting now (row :: todo) own v tr) :
    Handling now todo row.id (InCycle now row.id) own v tr := by
  obtain ⟨hnot, -⟩ := List.nodup_cons.mp h.nodup
  obtain ⟨hown, hdue⟩ := h.due row List.mem_cons_self
  refine ⟨hown, fun k hk _ => h.holds k hk, fun row' hrow' => ?_, ?_⟩
  · obtain ⟨hown', hdue'⟩ := h.due row' (List.mem_cons_of_mem row hrow')
    exact ⟨fun heq => hnot (heq ▸ List.mem_map_of_mem hrow'), hown', hdue'⟩
  · exact (retained_iff.mp (h.holds _ hown)).inCycle hdue

/-- To be done with it. -/
theorem Handling.waiting (h : Handling now todo id (Kept id) own v tr)
    (hnodup : (todo.map MessageRow.id).Nodup) : Waiting now todo own v tr := by
  refine ⟨fun k hk => ?_, fun row hrow => (h.due row hrow).2, hnodup⟩
  by_cases hk' : k = .event id
  · exact hk' ▸ retained_iff.mpr h.self
  · exact h.others k hk hk'

/-- A write to the event as one statement. -/
theorem Handling.write {w : Outbox → Outbox} {keys olds : Outbox → List Key}
    (h : Handling now todo id P own v tr) (hw : PartWrite id w)
    (hkeys : ∀ x, ∀ k ∈ keys x, k = .event id ∨ ∃ h, k = .delivery id h)
    (hPQ : ∀ x tr, P (part x (.event id)) tr → Q (part (w x) (.event id)) tr) :
    retentionGuard.Safe r (fun _ => Handling now todo id Q)
      (.stmt (.wait keys) olds (fun _ _ => w) fun _ _ => .ret () : Tx Unit) own v tr := by
  obtain ⟨F, hF⟩ := hw.self
  refine Guard.Safe.stmt_wait fun v₁ tr₁ hr₁ _ => ?_
  have h₁ := h.rely hr₁
  have hown : Key.event id ∈ own ++ keys v₁ := List.mem_append_left _ h₁.owned
  refine ⟨⟨Guard.Frame.of_part hown F hF fun k hk x => ?_, fun _ _ => trivial⟩,
    Guard.Safe.ret fun v₂ tr₂ hr₂ => Handling.rely ⟨hown, fun k hk hne => ?_, fun row hrow => ?_,
      hPQ _ _ h₁.self⟩ hr₂⟩
  · cases k with
    | event j => exact hw.same x j fun hj => hk (hj ▸ rfl)
    | delivery j h => rfl
  · cases k with
    | delivery j hd => exact trivial
    | event j =>
      have hj : j ≠ id := fun heq => hne (heq ▸ rfl)
      have hin : Key.event j ∈ own := by
        refine (List.mem_append.mp hk).resolve_right fun hnew => ?_
        rcases hkeys v₁ _ hnew with heq | ⟨hd, heq⟩
        · exact hne heq
        · cases heq
      have hold := retained_iff.mp (h₁.others _ hin hne)
      exact retained_iff.mpr ((hw.same v₁ j hj).symm ▸ hold)
  · obtain ⟨hne, hin, hdue⟩ := h₁.due row hrow
    exact ⟨hne, List.mem_append_left _ hin, (hw.same v₁ row.id hne).symm ▸ hdue⟩

/-! ## One delivery -/

theorem updateDelivery_retains {d : DeliveryRow} {ds : List DeliveryRow}
    {f : DeliveryRow → DeliveryRow} {hf : ∀ d, (f d).key = d.key}
    (h : Handling now todo id
      (fun p tr => Round now id (d :: ds) p tr ∧ Treated now id tr (f d)) own v tr) :
    retentionGuard.Safe r (fun _ => Handling now todo id (Round now id ds))
      (updateDelivery id d.handler f hf) own v tr := by
  refine h.write (partWrite_mapDelivery id d.handler f hf) (fun x k hk => ?_) fun x tr hP => ?_
  · split at hk
    · exact .inr ⟨d.handler, List.mem_singleton.mp hk⟩
    · cases hk
  · rw [part_mapDelivery]
    exact hP.1.update hP.2

/-- A plan that leaves the delivery pending leaves an attempt, at a later time. -/
theorem RetryPlan.fromFailure_pending {attempts maxAttempts : ℕ} {backoffMaxSecs : ℤ}
    {error : String} (hbackoff : 0 ≤ backoffMaxSecs)
    (hs : (RetryPlan.fromFailure attempts maxAttempts backoffMaxSecs error).status = .pending) :
    (RetryPlan.fromFailure attempts maxAttempts backoffMaxSecs error).attempts < maxAttempts ∧
      ∃ secs, 0 ≤ secs ∧ (RetryPlan.fromFailure attempts maxAttempts backoffMaxSecs
        error).nextAttemptAt = .delaySecs secs := by
  unfold RetryPlan.fromFailure at hs ⊢
  by_cases hlast : attempts + 1 ≥ maxAttempts
  · simp [hlast] at hs
  · simp only [hlast, if_false]
    exact ⟨not_le.mp hlast, _, le_min (by positivity) hbackoff, rfl⟩

theorem treated_recordRetry {config : DispatcherConfig} {d : DeliveryRow} {error : String}
    (hbackoff : 0 ≤ config.backoffMaxSecs) : Treated now id tr (d.recordRetry now
      (RetryPlan.fromFailure d.attempts d.maxAttempts config.backoffMaxSecs error)) := by
  refine ⟨fun hs => ?_, fun hs => ?_⟩
  · rcases RetryPlan.fromFailure_cases d.attempts d.maxAttempts config.backoffMaxSecs error rfl with
      ⟨hplan, -⟩ | ⟨hplan, -⟩ <;>
    · rw [DeliveryRow.recordRetry, hplan] at hs
      cases hs
  · obtain ⟨hlt, secs, hsecs, hnext⟩ := RetryPlan.fromFailure_pending hbackoff hs
    refine ⟨hlt, ?_⟩
    rw [DeliveryRow.recordRetry, hnext]
    refine WithTop.coe_le_coe.mpr ?_
    have : 0 ≤ secs * second := mul_nonneg hsecs (by decide)
    omega

theorem treated_markTerminalFailure {d : DeliveryRow} {error : String} :
    Treated now id tr (d.markTerminalFailure now error) := by
  constructor
  · intro hs
    cases hs
  · intro hs
    cases hs

theorem deliverOne_retains {config : DispatcherConfig} {payload : String} {d : DeliveryRow}
    {ds : List DeliveryRow} (hbackoff : 0 ≤ config.backoffMaxSecs)
    (h : Handling now todo id (Round now id (d :: ds)) own v tr) :
    retentionGuard.Safe r (fun _ => Handling now todo id (Round now id ds))
      (deliverOne now config payload id d) own v tr := by
  refine Guard.Safe.ask_bind fun v₁ tr₁ hr₁ => ⟨trivial, fun result => ⟨fun k hk => ?_, ?_⟩⟩
  · cases k with
    | delivery j hd => cases hk
    | event j =>
      obtain rfl : id = j := of_decide_eq_true hk
      exact ⟨h.owned, trivial⟩
  · have h₁ := h.rely hr₁
    -- the call is on record for this event, and for no other
    have hlog : ∀ j, retentionGuard.log (.event j)
        (tr₁ ++ [.called (.invoke now id d.handler payload) result]) =
        retentionGuard.log (.event j) tr₁ ++
          if id = j then [.called (.invoke now id d.handler payload) result] else [] := by
      intro j
      rw [Guard.log_append]
      by_cases hj : id = j
      · rw [if_pos hj]
        simp [Guard.log, retentionGuard, regards, hj]
      · rw [if_neg hj]
        simp [Guard.log, retentionGuard, regards, hj]
    have hcalled : Handling now todo id (fun p tr => Round now id (d :: ds) p tr ∧
        .called (.invoke now id d.handler payload) result ∈ tr) own v₁
        (tr₁ ++ [.called (.invoke now id d.handler payload) result]) := by
      refine ⟨h₁.owned, fun k hk hne => ?_, h₁.due, ?_⟩
      · cases k with
        | delivery j hd => exact trivial
        | event j =>
          have hj : id ≠ j := fun heq => hne (heq ▸ rfl)
          have hold := retained_iff.mp (h₁.others _ hk hne)
          refine retained_iff.mpr ?_
          rwa [hlog, if_neg hj, List.append_nil]
      · rw [hlog, if_pos rfl]
        exact ⟨h₁.self.mono (List.subset_append_left _ _), List.mem_append_right _
          (List.mem_singleton_self _)⟩
    cases result with
    | ok =>
      refine updateDelivery_retains (hcalled.mono fun p tr hP => ⟨hP.1, fun _ => ?_, fun hs => ?_⟩)
      · exact ⟨rfl, payload, hP.2⟩
      · cases hs
    | err message =>
      exact updateDelivery_retains (hcalled.mono fun p tr hP => ⟨hP.1, treated_recordRetry hbackoff⟩)
    | panicked message =>
      exact updateDelivery_retains (hcalled.mono fun p tr hP => ⟨hP.1, treated_markTerminalFailure⟩)

theorem processDelivery_retains {config : DispatcherConfig} {handlers : List String}
    {payload : String} {d : DeliveryRow} {ds : List DeliveryRow}
    (hbackoff : 0 ≤ config.backoffMaxSecs)
    (h : Handling now todo id (Round now id (d :: ds)) own v tr) :
    retentionGuard.Safe r (fun _ => Handling now todo id (Round now id ds))
      (processDelivery now config handlers payload id d) own v tr := by
  unfold processDelivery
  split
  · exact deliverOne_retains hbackoff h
  · exact updateDelivery_retains (h.mono fun p tr hP => ⟨hP, treated_markTerminalFailure⟩)

/-! ## One event -/

theorem ensureDeliveries_retains {handlers : List String} (hne : handlers ≠ [])
    (h : Handling now todo id (InCycle now id) own v tr) :
    retentionGuard.Safe r (fun _ => Handling now todo id
        (fun p tr => InCycle now id p tr ∧ p.deliveries.rows ≠ []))
      (ensureDeliveries now id handlers) own v tr := by
  refine h.write (partWrite_ensure now id handlers) (fun x k hk => ?_) fun x tr hP => ?_
  · obtain ⟨hd, -, rfl⟩ := List.mem_map.mp hk
    exact .inr ⟨hd, rfl⟩
  · rw [part_ensure_self]
    exact hP.ensure hne

/-- The due deliveries that the cycle reads are all that there are. -/
theorem Handling.round (h : Handling now todo id
      (fun p tr => InCycle now id p tr ∧ p.deliveries.rows ≠ []) own v tr) :
    Handling now todo id (Round now id (v.dueDeliveries now id)) own v tr := by
  obtain ⟨hcycle, hne⟩ := h.self
  refine ⟨h.owned, h.others, h.due, hcycle, hne, fun d hd hs hlt => ?_, fun d hd => ?_,
    nodup_dueDeliveries now id v⟩
  · refine (List.perm_insertionSort _ _).mem_iff.mpr (List.mem_filter.mpr ⟨hd, ?_⟩)
    exact isDue_iff.mpr ⟨hs, hcycle.attempts d hd hs, hlt.le⟩
  · obtain ⟨hget, hdue⟩ := mem_dueDeliveries hd
    exact ⟨(get?_deliveriesOf v id d.handler).trans hget, hdue⟩

theorem forEach_processDelivery_retains {config : DispatcherConfig} {handlers : List String}
    {payload : String} {ds : List DeliveryRow} (hbackoff : 0 ≤ config.backoffMaxSecs)
    (h : Handling now todo id (Round now id ds) own v tr) :
    retentionGuard.Safe r (fun _ => Handling now todo id (Round now id []))
      (Prog.forEach ds (processDelivery now config handlers payload id)) own v tr :=
  Guard.Safe.forEach_rest (P := fun ds => Handling now todo id (Round now id ds))
    (fun _ _ _ _ _ h => processDelivery_retains hbackoff h) (fun _ _ _ _ _ h hr => h.rely hr) h

theorem refreshMessageState_retains (h : Handling now todo id (Round now id []) own v tr) :
    retentionGuard.Safe r (fun _ => Handling now todo id (Kept id))
      (refreshMessageState now id) own v tr := by
  refine h.write (partWrite_refresh now id) (fun x k hk => ?_) fun x tr hP => ?_
  · split at hk
    · exact .inl (List.mem_singleton.mp hk)
    · cases hk
  · rw [part_refresh]
    exact hP.refreshed

theorem markEventsTerminalFailure_retains {error : String}
    (h : Handling now todo id (InCycle now id) own v tr) :
    retentionGuard.Safe r (fun _ => Handling now todo id (Kept id))
      (markEventsTerminalFailure id error) own v tr := by
  refine h.write (partWrite_mapEvent (EventRow.markTerminalFailure error)
    (EventRow.markTerminalFailure_id error) fun _ => rfl) (fun x k hk => ?_) fun x tr hP => ?_
  · split at hk
    · exact .inl (List.mem_singleton.mp hk)
    · cases hk
  · rw [part_mapEvent, if_pos rfl]
    exact hP.failed

theorem processMessage_retains {fromStr : String → Option String} {dispatcher : Dispatcher}
    {row : MessageRow} (h : Waiting now (row :: todo) own v tr) :
    retentionGuard.Safe r (fun _ => Waiting now todo)
      (processMessage fromStr dispatcher.registry dispatcher.config now row) own v tr := by
  have hstart := h.handling
  obtain ⟨-, hnodup⟩ := List.nodup_cons.mp h.nodup
  cases hjson : fromStr row.payload with
  | some e =>
    simp only [processMessage, hjson]
    exact trivial
  | none =>
    cases hget : dispatcher.registry.get row.topic with
    | none =>
      simp only [processMessage, hjson, hget]
      exact (markEventsTerminalFailure_retains hstart).mono fun _ _ _ _ h => h.waiting hnodup
    | some handlers =>
      have hne : handlers ≠ [] := fun hnil => dispatcher.registered row.topic (hnil ▸ hget)
      simp only [processMessage, hjson, hget]
      refine Guard.Safe.bind ((ensureDeliveries_retains hne hstart).mono fun _ own₁ v₁ tr₁ h₁ => ?_)
      refine Guard.Safe.select_bind fun v₂ tr₂ hr₂ => ?_
      refine Guard.Safe.bind ((forEach_processDelivery_retains dispatcher.backoff
        (h₁.rely hr₂).round).mono fun _ own₃ v₃ tr₃ h₃ => ?_)
      exact (refreshMessageState_retains h₃).mono fun _ _ _ _ h => h.waiting hnodup

/-! ## Requests -/

/-- The events that a cycle has locked are due, and nobody else works on them. -/
theorem waiting_of_fetch {keys : List Key}
    (hsub : keys.Sublist ((v'.dueEvents now).map fun q => Key.event q.id))
    (hr : retentionGuard.Rely [] v tr v' tr') :
    Waiting now (keys.filterMap (messageRow v')) ([] ++ keys) v' tr' := by
  refine ⟨fun k _ => hr.rest k List.not_mem_nil, fun row hrow => ?_, ?_⟩
  · obtain ⟨k, hk, hmsg⟩ := List.mem_filterMap.mp hrow
    obtain ⟨q, hq, rfl⟩ := List.mem_map.mp (hsub.subset hk)
    obtain ⟨hin, hwork⟩ := List.mem_filter.mp ((List.perm_insertionSort _ _).mem_iff.mp hq)
    obtain ⟨q', hget, rfl⟩ := Option.map_eq_some_iff.mp hmsg
    rw [Table.get?_of_mem hin] at hget
    obtain rfl := Option.some.inj hget
    refine ⟨hk, q, Table.get?_of_mem hin, ?_⟩
    exact of_decide_eq_true (Bool.and_eq_true _ _ ▸ hwork).1
  · have hkeys : keys.Nodup := by
      refine List.Nodup.sublist hsub ?_
      have hids : ((v'.dueEvents now).map EventRow.id).Nodup := by
        refine (((List.perm_insertionSort _ _).map EventRow.id).nodup_iff).mpr ?_
        exact v'.events.nodup.sublist (List.filter_sublist.map EventRow.id)
      have hmap := hids.map fun i j hij => Key.event.inj hij
      rwa [List.map_map] at hmap
    rw [List.map_filterMap]
    refine hkeys.filterMap fun k k' i hi hi' => ?_
    have hrow : ∀ k : Key, ∀ i ∈ (messageRow v' k).map MessageRow.id, k = .event i := by
      intro k i hi
      obtain ⟨row, hmsg, rfl⟩ := Option.map_eq_some_iff.mp hi
      cases k with
      | delivery j h => cases hmsg
      | event j =>
        obtain ⟨q, hget, rfl⟩ := Option.map_eq_some_iff.mp hmsg
        exact congrArg Key.event (Table.key_of_get? hget).symm
    rw [hrow k i hi, hrow k' i hi']

theorem retains_now (t : ℤ) : retentionGuard.Hears own v tr (.called .now t) :=
  Guard.Hears.of_none fun k => by cases k <;> rfl

theorem retains_nextval (n : ℕ) : retentionGuard.Hears own v tr (.called .nextval n) :=
  Guard.Hears.of_none fun k => by cases k <;> rfl

theorem runOneCycle_retains {fromStr : String → Option String} {dispatcher : Dispatcher} :
    retentionGuard.Safe r (fun _ own v tr => ∀ k ∈ own, retentionGuard.Holds k v tr)
      (runOneCycle fromStr dispatcher.registry dispatcher.config) [] v tr := by
  refine Guard.Safe.ask_bind fun v₁ tr₁ hr₁ => ⟨trivial, fun now => ⟨retains_now now, ?_⟩⟩
  refine Guard.Safe.selectSkipLocked_bind fun v₂ tr₂ ks hr₂ hsub => ?_
  have hwait := waiting_of_fetch hsub hr₂
  generalize ks.filterMap (messageRow v₂) = rows at hwait
  split
  · exact Guard.Safe.ret fun v₃ tr₃ hr₃ => (hwait.rely hr₃).holds
  · have hloop := Guard.Safe.forEach_rest (G := retentionGuard) (r := r)
      (f := processMessage fromStr dispatcher.registry dispatcher.config now)
      (P := Waiting now) (fun row rest own v tr h => processMessage_retains h)
      (fun _ _ _ _ _ h hr => h.rely hr) hwait
    refine Guard.Safe.bind (hloop.mono fun _ own v tr h => ?_)
    exact Guard.Safe.ret fun v' tr' hr => (h.rely hr).holds

/-- A new event has no deliveries, and is not delivered. -/
theorem insertEvent_retains {row : EventRow} (hpending : row.status = .pending) :
    retentionGuard.Safe r (fun _ own v tr => ∀ k ∈ own, retentionGuard.Holds k v tr)
      (insertEvent row) [] v tr := by
  rw [← Prog.bind_ret (insertEvent row)]
  refine Guard.Safe.insert_bind fun v₁ tr₁ hr₁ hfree => ?_
  have hnone : v₁.events.get? row.id = none := by
    unfold insertRefusal at hfree
    split at hfree
    · cases hfree
    · split at hfree
      · cases hfree
      · next hhas => exact Table.has_eq_false.mp (by simpa using hhas)
  have hown : Key.event row.id ∈ [] ++ [Key.event row.id] := List.mem_singleton_self _
  refine ⟨⟨Guard.Frame.of_part hown (fun p => ⟨some (p.event.getD row), p.deliveries⟩)
    (fun x => ?_) fun k hk x => ?_, fun k hk => trivial⟩, Guard.Safe.ret fun v₂ tr₂ hr₂ k hk => ?_⟩
  · show part (x.insertEvent row) (.event row.id) = _
    rw [part_insertEvent]
    cases hx : x.events.get? row.id with
    | none => simp [part, retentionGuard, hx, Table.get?_insert_self hx]
    | some q => simp [part, retentionGuard, hx, Table.get?_insert_of_some hx]
  · cases k with
    | delivery id h => rfl
    | event id =>
      have hne : row.id ≠ id := fun heq => hk (heq ▸ rfl)
      show part (x.insertEvent row) (.event id) = part x (.event id)
      rw [part_insertEvent, Table.get?_insert_of_ne hne, part]
  · obtain rfl : k = .event row.id := by simpa using hk
    have hproj : part v₂ (.event row.id) = part (v₁.insertEvent row) (.event row.id) :=
      (hr₂.kept _ hown).1
    have hpart : part v₂ (.event row.id) = ⟨some row, v₁.deliveriesOf row.id⟩ := by
      rw [hproj, part_insertEvent, Table.get?_insert_self hnone]
    have hempty : (v₁.deliveriesOf row.id).rows = [] :=
      (retained_iff.mp (hr₁.rest (.event row.id) List.not_mem_nil)).known hnone
    have hrows : (part v₂ (.event row.id)).deliveries.rows = [] := by rw [hpart]; exact hempty
    have hno : ∀ d ∈ (part v₂ (.event row.id)).deliveries.rows, False := by
      intro d hd
      rw [hrows] at hd
      cases hd
    refine retained_iff.mpr ⟨⟨fun _ => hrows, fun d hd => (hno d hd).elim,
      fun d hd => (hno d hd).elim⟩, fun _ _ d hd => (hno d hd).elim, fun e he hs => ?_⟩
    rw [hpart] at he
    obtain rfl := Option.some.inj he
    rw [hpending] at hs
    cases hs

theorem part_deleteEvents_of_mem {ids : List ℕ} {j : ℕ} (hj : j ∈ ids) (x : Outbox) :
    part (x.deleteEvents ids) (.event j) = ⟨none, .empty⟩ := by
  have hrows : ((x.deleteEvents ids).deliveriesOf j).rows = [] := by
    refine List.filter_eq_nil_iff.mpr fun d hd => ?_
    have hnot : d.eventId ∉ ids := of_decide_eq_true (List.mem_filter.mp hd).2
    exact fun heq => hnot (of_decide_eq_true heq ▸ hj)
  have hevent : (x.deleteEvents ids).events.get? j = none :=
    Table.get?_restrict_eq_none (fun e he => decide_eq_false fun hnot => hnot (he ▸ hj)) _
  exact congrArg₂ Part.mk hevent (Table.ext hrows)

theorem part_deleteEvents_of_notMem {ids : List ℕ} {j : ℕ} (hj : j ∉ ids) (x : Outbox) :
    part (x.deleteEvents ids) (.event j) = part x (.event j) := by
  have hevent : (x.deleteEvents ids).events.get? j = x.events.get? j :=
    Table.get?_restrict (fun e he => decide_eq_true (he ▸ hj)) _
  have hrows : ((x.deleteEvents ids).deliveriesOf j).rows = (x.deliveriesOf j).rows := by
    show (x.deliveries.rows.filter _).filter _ = x.deliveries.rows.filter _
    rw [List.filter_filter]
    refine List.filter_congr fun d _ => ?_
    by_cases hd : d.eventId = j
    · simp [hd, hj]
    · simp [hd]
  exact congrArg₂ Part.mk hevent (Table.ext hrows)

theorem mem_rowsOf {ids : List ℕ} {j : ℕ} : Key.event j ∈ v.rowsOf ids ↔ j ∈ ids := by
  simp [Outbox.rowsOf]

/-- Of a deleted event nothing is left to promise. -/
theorem deleteExpired_retains {days : ℤ} :
    retentionGuard.Safe r (fun _ own v tr => ∀ k ∈ own, retentionGuard.Holds k v tr)
      (deleteExpired now days) [] v tr := by
  refine Guard.Safe.stmt_wait fun v₁ tr₁ hr₁ _ => ?_
  generalize v₁.expired now days = ids
  refine ⟨⟨⟨fun k hk x => ?_, fun x y _ k hk => ?_⟩, fun _ _ => trivial⟩,
    Guard.Safe.ret fun v₂ tr₂ hr₂ k hk => ?_⟩
  · cases k with
    | delivery j h => rfl
    | event j => exact part_deleteEvents_of_notMem (fun hj => hk (mem_rowsOf.mpr hj)) x
  · cases k with
    | delivery j h => rfl
    | event j =>
      have hj := mem_rowsOf.mp hk
      exact (part_deleteEvents_of_mem hj x).trans (part_deleteEvents_of_mem hj y).symm
  · cases k with
    | delivery j h => exact trivial
    | event j =>
      have hproj : part v₂ (.event j) = part (v₁.deleteEvents ids) (.event j) := (hr₂.kept _ hk).1
      rw [part_deleteEvents_of_mem (mem_rowsOf.mp hk)] at hproj
      refine retained_iff.mpr ?_
      rw [hproj]
      exact kept_empty _ _

/-- Every request leaves what it owns in order when it commits. -/
theorem BusRequest.run_retains {fromStr : String → Option String} (r : BusRequest) (v : Outbox)
    (tr : List (Event BusRequest Answer)) :
    retentionGuard.Safe r (fun _ => retentionGuard.Done r) (r.run fromStr) [] v tr := by
  suffices h : retentionGuard.Safe r (fun _ own v tr => ∀ k ∈ own, retentionGuard.Holds k v tr)
      (r.run fromStr) [] v tr by
    refine h.mono fun _ own v tr hall => ⟨fun k hk => ?_, ?_⟩
    · -- a commit is no call
      have hnil : retentionGuard.log k [.committed r] = [] := by
        refine Guard.log_eq_nil fun e he => ?_
        rw [List.mem_singleton.mp he]
        cases k <;> rfl
      unfold Guard.Holds
      rw [Guard.log_append, hnil, List.append_nil]
      exact hall k hk
    · exact Guard.Hears.of_none fun k => by cases k <;> rfl
  cases r with
  | cycle dispatcher =>
    refine Guard.Safe.bind (runOneCycle_retains.mono fun _ own v tr hall => ?_)
    exact Guard.Safe.ret fun v' tr' hr k _ => hr.holds hall k
  | publish topic payload =>
    refine Guard.Safe.ask_bind fun v₁ tr₁ hr₁ => ⟨trivial, fun now => ⟨retains_now now, ?_⟩⟩
    refine Guard.Safe.ask_bind fun v₂ tr₂ hr₂ => ⟨trivial, fun id => ⟨retains_nextval id, ?_⟩⟩
    exact insertEvent_retains rfl
  | publishWithDelay topic payload delay =>
    refine Guard.Safe.ask_bind fun v₁ tr₁ hr₁ => ⟨trivial, fun now => ⟨retains_now now, ?_⟩⟩
    refine Guard.Safe.ask_bind fun v₂ tr₂ hr₂ => ⟨trivial, fun id => ⟨retains_nextval id, ?_⟩⟩
    exact insertEvent_retains rfl
  | gc retainDays =>
    refine Guard.Safe.ask_bind fun v₁ tr₁ hr₁ => ⟨trivial, fun now => ⟨retains_now now, ?_⟩⟩
    exact deleteExpired_retains

/-! ## Runs -/

/-- The database, the open transactions and the record. -/
abbrev BusConfig := Config Outbox Key Answer String Unit BusRequest

theorem retained_of_run {fromStr : String → Option String}
    {ok : BusConfig → Action BusRequest Answer → Prop} {c : BusConfig}
    (hr : Run (BusRequest.run fromStr) ok (Config.init .empty) c) : retentionGuard.Sound c := by
  refine Guard.Sound.run (fun r v tr _ => BusRequest.run_retains r v tr)
    (fun _ _ _ _ _ _ _ _ => trivial) (Guard.Sound.init fun k => ?_) hr
  cases k with
  | delivery id h => exact trivial
  | event id => exact kept_empty id []

/-- Where a garbage collection stands: before its clock, before its statement, or done. -/
def AtGc (s : Session Outbox Key Answer String Unit BusRequest) : Prop :=
  ∀ retainDays, s.request = .gc retainDays →
    (s.prog = deleteDeliveredOlderThan retainDays ∧ ∀ x, s.writes x = x) ∨
    (∃ now, .called .now now ∈ s.calls ∧ s.prog = deleteExpired now (max retainDays 1) ∧
      ∀ x, s.writes x = x) ∨
    s.prog = .ret ()

theorem atGc_of_run {fromStr : String → Option String}
    {ok : BusConfig → Action BusRequest Answer → Prop} {c : BusConfig}
    (hr : Run (BusRequest.run fromStr) ok (Config.init .empty) c) :
    ∀ i s, c.session? i = some s → AtGc s := by
  refine hr.sessions ?_ ?_ ?_
  · rintro _ retainDays rfl
    exact .inl ⟨rfl, fun _ => rfl⟩
  · intro s q next a h hprog retainDays hgc
    rcases h retainDays hgc with ⟨hstart, hw⟩ | ⟨now, -, hstmt, -⟩ | hret
    · rw [hprog] at hstart
      cases hstart
      exact .inr (.inl ⟨a, List.mem_append_right _ (List.mem_singleton_self _), rfl, hw⟩)
    · rw [hprog] at hstmt
      cases hstmt
    · rw [hprog] at hret
      cases hret
  · intro s lock olds write next v ks h hprog retainDays hgc
    rcases h retainDays hgc with ⟨hstart, -⟩ | ⟨now, -, hstmt, -⟩ | hret
    · rw [hprog] at hstart
      cases hstart
    · rw [hprog] at hstmt
      cases hstmt
      exact .inr (.inr rfl)
    · rw [hprog] at hret
      cases hret

/-- Session `i` is a garbage collection for `retainDays`, and its step deletes event `e`. -/
structure Deletes (c d : BusConfig) (i : ℕ) (retainDays : ℤ)
    (s : Session Outbox Key Answer String Unit BusRequest) (e : EventRow) : Prop where
  session : c.session? i = some s
  request : s.request = .gc retainDays
  present : c.db.events.get? e.id = some e
  gone : ∃ s', d.session? i = some s' ∧ (s'.writes d.db).events.get? e.id = none

/-- What is deleted is expired by the clock of the collection. -/
theorem Deletes.expired {fromStr : String → Option String}
    {c d : BusConfig} {i : ℕ} {ans : (q : Ask) → Answer q} {retainDays : ℤ}
    {s : Session Outbox Key Answer String Unit BusRequest} {e : EventRow} (hs : AtGc s)
    (hstep : c.act (BusRequest.run fromStr) (.step i ans) = some d)
    (h : Deletes c d i retainDays s e) :
    ∃ now, .called .now now ∈ s.calls ∧ e.isExpired now (max retainDays 1) = true := by
  obtain ⟨s', hs', hgone⟩ := h.gone
  -- the step is one of session `i`, which is still open after it
  have hsame : ∀ t, c.session? i = some t → t = s := fun t ht =>
    Option.some.inj (ht.symm.trans h.session)
  cases Step.of_act hstep with
  | commit hi hprog =>
    rw [Config.session?_commit, Config.session?_put_self hi] at hs'
    cases hs'
  | rollback hi hprog =>
    rw [Config.session?_put_self hi] at hs'
    cases hs'
  | call hi hprog =>
    obtain rfl := hsame _ hi
    rw [Config.session?_put_self hi] at hs'
    obtain rfl := Option.some.inj hs'
    rcases hs retainDays h.request with ⟨-, hw⟩ | ⟨now, -, hstmt, -⟩ | hret
    · change ((Session.writes _ c.db).events.get? e.id) = none at hgone
      rw [Session.answered, hw, h.present] at hgone
      cases hgone
    · rw [hprog] at hstmt
      cases hstmt
    · rw [hprog] at hret
      cases hret
  | stmt hi hprog hl =>
    obtain rfl := hsame _ hi
    rw [Config.session?_put_self hi] at hs'
    obtain rfl := Option.some.inj hs'
    rcases hs retainDays h.request with ⟨hstart, -⟩ | ⟨now, hnow, hstmt, hw⟩ | hret
    · rw [hprog] at hstart
      cases hstart
    · rw [hprog] at hstmt
      cases hstmt
      refine ⟨now, hnow, ?_⟩
      have hview : ((c.db.deleteEvents (c.db.expired now (max retainDays 1))).events.get? e.id) =
          none := by
        simpa only [Session.executed, Function.comp_apply, hw, Config.put] using hgone
      by_contra hnot
      have hid : e.id ∉ c.db.expired now (max retainDays 1) := by
        intro hin
        obtain ⟨e', he', hkey⟩ := List.mem_map.mp hin
        obtain ⟨hmem, hexpired⟩ := List.mem_filter.mp he'
        have hget := Table.get?_of_mem hmem
        rw [hkey, h.present] at hget
        exact hnot (Option.some.inj hget ▸ hexpired)
      have hpart := congrArg Part.event (part_deleteEvents_of_notMem hid c.db)
      exact absurd (hpart.symm.trans hview) (by simp [part, h.present])
    · rw [hprog] at hret
      cases hret

/-- Along every run, whatever the subscribers answer, whatever registries the dispatchers bring
and whatever retention is asked for: an event that garbage collection deletes has been processed,
all of its deliveries are delivered, each by a call that its subscriber has answered, and each
longer ago than the retention, which is at least one day. -/
theorem gc_safe {fromStr : String → Option String} {c d : BusConfig}
    (hr : Run (BusRequest.run fromStr) (fun _ _ => True) (Config.init .empty) c)
    {i : ℕ} {ans : (q : Ask) → Answer q}
    (hstep : c.act (BusRequest.run fromStr) (.step i ans) = some d)
    {retainDays : ℤ} {s : Session Outbox Key Answer String Unit BusRequest} {e : EventRow}
    (hdel : Deletes c d i retainDays s e) :
    ∃ now, .called .now now ∈ s.calls ∧ (c.db.deliveriesOf e.id).rows ≠ [] ∧
      ∀ dl ∈ (c.db.deliveriesOf e.id).rows, dl.status = .delivered ∧
        ∃ t payload, dl.deliveredAt = some t ∧ t < now - max retainDays 1 * day ∧
          .called (.invoke t e.id dl.handler payload) .ok ∈ c.trace := by
  obtain ⟨now, hnow, hexpired⟩ := hdel.expired (atGc_of_run hr i s hdel.session) hstep
  have hkept : Kept e.id (part c.db (.event e.id)) (retentionGuard.log (.event e.id) c.trace) :=
    retained_iff.mp ((retained_of_run hr).holds (.event e.id))
  obtain ⟨hstatus, htime⟩ := Bool.and_eq_true_iff.mp hexpired
  obtain ⟨-, hne, t, ht, hall⟩ := hkept.settled e hdel.present (of_decide_eq_true hstatus)
  rw [ht] at htime
  have hbefore : t < now - max retainDays 1 * day := of_decide_eq_true htime
  refine ⟨now, hnow, hne, fun dl hdl => ?_⟩
  obtain ⟨hdelivered, t', hle, hat⟩ := hall dl hdl
  obtain ⟨t'', payload, hat', hcall⟩ := hkept.answered dl hdl hdelivered
  rw [hat] at hat'
  obtain rfl := Option.some.inj hat'
  exact ⟨hdelivered, t', payload, hat, by omega, (List.mem_filter.mp hcall).1⟩

/-- One dispatcher for the topic "t". -/
def oneDispatcher : Dispatcher where
  registry := ⟨[("t", ["a", "b"])]⟩
  config := .default
  registered := by
    intro topic h
    rw [Registry.get, List.lookup_cons] at h
    split at h
    · cases h
    · cases h
  backoff := by decide

/-- An event is published and delivered to both subscribers; two days later garbage collection,
asked to keep nothing, stands before its statement. -/
def delivered : List (Action BusRequest Answer) :=
  [.start (.publish "t" "{}"), .start (.cycle oneDispatcher), .start (.gc 0)] ++
  List.replicate 4 (.step 0 (answers 10 1 [])) ++
  List.replicate 10 (.step 1 (answers 20 0 [])) ++
  [.step 2 (answers (20 + 2 * day) 0 [])]

theorem gc_safe_delivered :
    ∃ (c : BusConfig) (s : Session Outbox Key Answer String Unit BusRequest) (now : ℤ),
      Run (BusRequest.run fun _ => none) (fun _ _ => True) (Config.init .empty) c ∧
      c.session? 2 = some s ∧ .called .now now ∈ s.calls ∧
      (c.db.deliveriesOf 1).rows.length = 2 ∧
      ∀ dl ∈ (c.db.deliveriesOf 1).rows, dl.status = .delivered ∧
        ∃ t payload, dl.deliveredAt = some t ∧ t < now - max 0 1 * day ∧
          .called (.invoke t 1 dl.handler payload) .ok ∈ c.trace := by
  have hplay : (((Config.init .empty : BusConfig).play (BusRequest.run fun _ => none)
      (fun _ _ => true) delivered).bind fun c =>
        (c.act (BusRequest.run fun _ => none) (.step 2 (answers 0 0 []))).bind fun d =>
          (c.session? 2).bind fun s => (d.session? 2).map fun s' =>
            (c.db.events.get? 1).isSome && (s'.writes d.db).events.get? 1 = none &&
              (c.db.deliveriesOf 1).rows.length = 2) = some true := by
    decide +kernel
  obtain ⟨c, hc, hplay⟩ := Option.bind_eq_some_iff.mp hplay
  obtain ⟨d, hd, hplay⟩ := Option.bind_eq_some_iff.mp hplay
  obtain ⟨s, hs, hplay⟩ := Option.bind_eq_some_iff.mp hplay
  obtain ⟨s', hs', hplay⟩ := Option.map_eq_some_iff.mp hplay
  simp only [Bool.and_eq_true, decide_eq_true_eq, Option.isSome_iff_exists] at hplay
  obtain ⟨⟨⟨e, he⟩, hgone⟩, hlength⟩ := hplay
  have hrun : Run (BusRequest.run fun _ => none) (fun _ _ => True)
      (Config.init .empty : BusConfig) c := Run.of_play (fun _ _ _ => trivial) .refl hc
  have hid : e.id = 1 := Table.key_of_get? he
  have hrequest : s.request = .gc 0 := by
    have hplay' : (((Config.init .empty : BusConfig).play (BusRequest.run fun _ => none)
        (fun _ _ => true) delivered).bind fun c => (c.session? 2).map fun s =>
          match s.request with
          | .gc days => decide (days = 0)
          | _ => false) = some true := by
      decide +kernel
    rw [hc, Option.bind_some, hs, Option.map_some] at hplay'
    have htest := Option.some.inj hplay'
    split at htest
    · next days hdays => rw [hdays, of_decide_eq_true htest]
    · cases htest
  obtain ⟨now, hnow, -, hall⟩ := gc_safe hrun hd
    (⟨hs, hrequest, hid ▸ he, s', hs', hid ▸ hgone⟩ : Deletes c d 2 0 s e)
  rw [hid] at hall
  exact ⟨c, s, now, hrun, hs, hnow, hlength, hall⟩

end Slab.EventBus
