import Slab.EventBus.Deliveries

/-!
# Every transaction keeps the guard of the outbox

A dispatcher cycle works on one locked event at a time. Between a call and the update of its
delivery row one delivery is out of balance; between the first call and the refresh the
aggregate is. Both are right again before the next event, and at the commit.

## Main results

- `processDelivery_safe` — one due delivery
- `processMessage_safe` — one event
- `request_safe` — every request
-/

namespace Slab.EventBus

open Txn

variable {handled : Prop} {r : Request} {rows : List MessageRow} {id : ℕ} {handler : String}
  {own : List Key} {v v' : Outbox} {tr tr' : List (Event Request Answer)}

/-! ## The guard in terms of the tables -/

theorem holds_iff : (deliveryGuard handled).Holds (.event id) v tr ↔
    (∀ h, DeliveryOk (v.deliveries.get? (id, h)) (invocations id h tr)) ∧
      (handled → (part v (.event id)).Consistent) := by
  show ((∀ h, DeliveryOk ((v.deliveriesOf id).get? (id, h)) (invocations id h
    (tr.filter (concerns (.event id))))) ∧ _) ↔ _
  simp only [get?_deliveriesOf, invocations_filter]
  exact Iff.rfl

theorem moves_iff : (deliveryGuard handled).moves (.event id)
      ((deliveryGuard handled).state (.event id) v tr)
      ((deliveryGuard handled).state (.event id) v' tr') ↔
    ∀ h, Develops (v.deliveries.get? (id, h)) (invocations id h tr)
      (v'.deliveries.get? (id, h)) (invocations id h tr') := by
  show (∀ h, Develops ((v.deliveriesOf id).get? (id, h))
    (invocations id h (tr.filter (concerns (.event id)))) ((v'.deliveriesOf id).get? (id, h))
    (invocations id h (tr'.filter (concerns (.event id))))) ↔ _
  simp only [get?_deliveriesOf, invocations_filter]

theorem holds_delivery : (deliveryGuard handled).Holds (.delivery id handler) v tr := trivial

section Rely

variable (hr : (deliveryGuard handled).Rely own v tr v' tr') (hown : Key.event id ∈ own)

include hr hown

theorem rely_part : part v' (.event id) = part v (.event id) := (hr.kept _ hown).1

theorem rely_event : v'.events.get? id = v.events.get? id := congrArg Part.event (rely_part hr hown)

theorem rely_delivery : v'.deliveries.get? (id, handler) = v.deliveries.get? (id, handler) := by
  rw [← get?_deliveriesOf, ← get?_deliveriesOf]
  exact congrArg (fun p => p.deliveries.get? (id, handler)) (rely_part hr hown)

theorem rely_invocations : invocations id handler tr' = invocations id handler tr := by
  rw [← invocations_filter, ← invocations_filter id handler tr]
  exact congrArg (invocations id handler) (hr.kept _ hown).2

end Rely

/-! ## What a cycle knows -/

/-- The fetched events are locked and on the topics that were read. -/
def Fetched (rows : List MessageRow) (own : List Key) (v : Outbox) : Prop :=
  ∀ row ∈ rows, Key.event row.id ∈ own ∧
    (v.events.get? row.id).map EventRow.topic = some row.topic

/-- Between two events: all that is owned is in order. -/
structure Resting (handled : Prop) (rows : List MessageRow) (own : List Key) (v : Outbox)
    (tr : List (Event Request Answer)) : Prop where
  fetched : Fetched rows own v
  holds : ∀ k ∈ own, (deliveryGuard handled).Holds k v tr

/-- While event `id` is worked on: the other events are in order, and so are its deliveries,
but for the one whose subscriber has just been called. -/
structure Working (handled : Prop) (rows : List MessageRow) (id : ℕ) (called : Option String)
    (own : List Key) (v : Outbox) (tr : List (Event Request Answer)) : Prop where
  fetched : Fetched rows own v
  owned : Key.event id ∈ own
  others : ∀ k ∈ own, k ≠ .event id → (deliveryGuard handled).Holds k v tr
  ok : ∀ h, called ≠ some h → DeliveryOk (v.deliveries.get? (id, h)) (invocations id h tr)
  valid : handled → (part v (.event id)).Valid

theorem Fetched.rely (h : Fetched rows own v)
    (hr : (deliveryGuard handled).Rely own v tr v' tr') : Fetched rows own v' := by
  intro row hrow
  obtain ⟨hown, htopic⟩ := h row hrow
  exact ⟨hown, by rwa [rely_event hr hown]⟩

theorem Resting.rely (h : Resting handled rows own v tr)
    (hr : (deliveryGuard handled).Rely own v tr v' tr') : Resting handled rows own v' tr' :=
  ⟨h.fetched.rely hr, fun k _ => hr.holds h.holds k⟩

theorem Working.rely {called : Option String} (h : Working handled rows id called own v tr)
    (hr : (deliveryGuard handled).Rely own v tr v' tr') :
    Working handled rows id called own v' tr' := by
  refine ⟨h.fetched.rely hr, h.owned, fun k hk hne => ?_, fun hd hcalled => ?_, fun hh => ?_⟩
  · have hkept := hr.kept k hk
    have hk' := h.others k hk hne
    unfold Guard.Holds at hk' ⊢
    rwa [hkept.1, hkept.2]
  · rw [rely_delivery hr h.owned, rely_invocations hr h.owned]
    exact h.ok hd hcalled
  · rw [rely_part hr h.owned]
    exact h.valid hh

/-- To start on a fetched event. -/
theorem Resting.working {row : MessageRow} (h : Resting handled rows own v tr)
    (hrow : row ∈ rows) : Working handled rows row.id none own v tr := by
  obtain ⟨hown, -⟩ := h.fetched row hrow
  obtain ⟨hok, hcons⟩ := holds_iff.mp (h.holds _ hown)
  exact ⟨h.fetched, hown, fun k hk _ => h.holds k hk, fun hd _ => hok hd,
    fun hh => (hcons hh).toValid⟩

/-- To be done with it. -/
theorem Working.resting (h : Working handled rows id none own v tr)
    (hcons : handled → (part v (.event id)).Consistent) : Resting handled rows own v tr := by
  refine ⟨h.fetched, fun k hk => ?_⟩
  by_cases hk' : k = .event id
  · rw [hk']
    exact holds_iff.mpr ⟨fun hd => h.ok hd (by simp), hcons⟩
  · exact h.others k hk hk'

/-! ## Writes to one event -/

/-- The write touches the part of event `id` only, and no topic. -/
structure PartWrite (id : ℕ) (w : Outbox → Outbox) : Prop where
  self : ∃ F : Part → Part, ∀ x, part (w x) (.event id) = F (part x (.event id))
  same : ∀ x j, j ≠ id → part (w x) (.event j) = part x (.event j)
  topic : ∀ x j, ((w x).events.get? j).map EventRow.topic = (x.events.get? j).map EventRow.topic

theorem partWrite_mapDelivery (id : ℕ) (handler : String) (f : DeliveryRow → DeliveryRow)
    (hf : ∀ d, (f d).key = d.key) : PartWrite id (Outbox.mapDelivery id handler f hf) where
  self := ⟨fun p => ⟨p.event, p.deliveries.modify (id, handler) f hf⟩,
    fun x => part_mapDelivery id handler f hf x id⟩
  same x _ hj := part_mapDelivery_of_ne hj handler f hf x
  topic _ _ := rfl

theorem partWrite_ensure (now : ℤ) (id : ℕ) (handlers : List String) :
    PartWrite id (Outbox.ensure now id handlers) where
  self := ⟨_, part_ensure_self now id handlers⟩
  same x _ hj := part_ensure_of_ne hj now handlers x
  topic x j := by
    unfold Outbox.ensure
    cases x.events.get? id <;> rfl

theorem topic_mapEvent (f : EventRow → EventRow) (hf : ∀ e, (f e).id = e.id)
    (htopic : ∀ e, (f e).topic = e.topic) (x : Outbox) (j : ℕ) :
    ((x.mapEvent id f hf).events.get? j).map EventRow.topic =
      (x.events.get? j).map EventRow.topic := by
  show ((x.events.modify id f hf).get? j).map EventRow.topic = _
  rw [Table.get?_modify]
  split
  · rw [Option.map_map]
    exact congrArg (Option.map · _) (funext htopic)
  · rfl

theorem partWrite_mapEvent (f : EventRow → EventRow) (hf : ∀ e, (f e).id = e.id)
    (htopic : ∀ e, (f e).topic = e.topic) : PartWrite id (Outbox.mapEvent id f hf) where
  self := ⟨fun p => ⟨p.event.map f, p.deliveries⟩, fun x => by
    rw [part_mapEvent, if_pos rfl]; rfl⟩
  same x j hj := by
    rw [part_mapEvent, if_neg hj]; rfl
  topic := topic_mapEvent f hf htopic

theorem part_refresh (now : ℤ) (x : Outbox) : part (x.refresh now id) (.event id) =
    ⟨(x.events.get? id).map (EventRow.refreshed now (x.deliveriesOf id).rows),
      x.deliveriesOf id⟩ := by
  rw [Outbox.refresh, part_mapEvent, if_pos rfl]

theorem partWrite_refresh (now : ℤ) (id : ℕ) : PartWrite id (Outbox.refresh now id) where
  self := ⟨fun p => ⟨p.event.map (EventRow.refreshed now p.deliveries.rows), p.deliveries⟩,
    part_refresh now⟩
  same x j hj := by
    rw [Outbox.refresh, part_mapEvent, if_neg hj]; rfl
  topic x j := by
    unfold Outbox.refresh
    exact topic_mapEvent (EventRow.refreshed now (x.deliveriesOf id).rows) _ (fun _ => rfl) x j

theorem PartWrite.writes {w : Outbox → Outbox} (hw : PartWrite id w) (hown : .event id ∈ own)
    (hdevelops : ∀ h, Develops (v.deliveries.get? (id, h)) (invocations id h tr)
      ((w v).deliveries.get? (id, h)) (invocations id h tr)) :
    (deliveryGuard handled).Writes own v tr w := by
  obtain ⟨F, hF⟩ := hw.self
  refine ⟨Guard.Frame.of_part hown F hF fun k hk x => ?_, fun k hk => ?_⟩
  · cases k with
    | event j => exact hw.same x j fun hj => hk (hj ▸ rfl)
    | delivery j h => rfl
  · cases k with
    | event j =>
      by_cases hj : j = id
      · subst hj
        exact moves_iff.mpr hdevelops
      · exact Guard.moves_of_eq (congrArg (·, _) (hw.same v j hj))
    | delivery j h => exact trivial

/-- Statements on event `id` lock no other event. -/
theorem Working.grow {called : Option String} {keys : List Key}
    (h : Working handled rows id called own v tr)
    (hkeys : ∀ k ∈ keys, k = .event id ∨ ∃ h, k = .delivery id h) :
    Working handled rows id called (own ++ keys) v tr := by
  refine ⟨fun row hrow => ?_, List.mem_append_left _ h.owned, fun k hk hne => ?_, h.ok, h.valid⟩
  · obtain ⟨hown, htopic⟩ := h.fetched row hrow
    exact ⟨List.mem_append_left _ hown, htopic⟩
  · rcases List.mem_append.mp hk with hk | hk
    · exact h.others k hk hne
    · rcases hkeys k hk with rfl | ⟨hd, rfl⟩
      · exact absurd rfl hne
      · exact trivial

theorem Working.write {called : Option String} {w : Outbox → Outbox}
    (h : Working handled rows id called own v tr) (hw : PartWrite id w)
    (hok : ∀ h, DeliveryOk ((w v).deliveries.get? (id, h)) (invocations id h tr))
    (hvalid : handled → (part (w v) (.event id)).Valid) :
    Working handled rows id none own (w v) tr := by
  refine ⟨fun row hrow => ?_, h.owned, fun k hk hne => ?_, fun hd _ => hok hd, hvalid⟩
  · obtain ⟨hown, htopic⟩ := h.fetched row hrow
    exact ⟨hown, by rwa [hw.topic]⟩
  · cases k with
    | delivery j hd => exact trivial
    | event j =>
      have hold := h.others _ hk hne
      unfold Guard.Holds at hold ⊢
      show (deliveryGuard handled).inv _ (part (w v) (.event j)) _
      rwa [hw.same v j fun hj => hne (hj ▸ rfl)]

/-- A write to a locked event as one statement. What is known after it is what the write makes
of the view before it, and what may be assumed of the request. -/
theorem PartWrite.safe {w : Outbox → Outbox} (hw : PartWrite id w) {called : Option String}
    {keys olds : Outbox → List Key}
    (hkeys : ∀ x, ∀ k ∈ keys x, k = .event id ∨ ∃ h, k = .delivery id h)
    (h : Working handled rows id called own v tr)
    (hdevelops : ∀ h, Develops (v.deliveries.get? (id, h)) (invocations id h tr)
      ((w v).deliveries.get? (id, h)) (invocations id h tr))
    (hok : ∀ h, DeliveryOk ((w v).deliveries.get? (id, h)) (invocations id h tr))
    (hvalid : handled → (part (w v) (.event id)).Valid) :
    (deliveryGuard handled).Safe r
      (fun _ own' v' tr' => Working handled rows id none own' v' tr' ∧
        part v' (.event id) = part (w v) (.event id) ∧ (handled → r.Handles [.event id] v))
      (.stmt (.wait keys) olds (fun _ _ => w) fun _ _ => .ret () : Tx Unit) own v tr := by
  obtain ⟨F, hF⟩ := hw.self
  refine Guard.Safe.stmt_wait fun v₁ tr₁ hr₁ hassumes => ?_
  -- the write makes the same of the view that the others have left
  have hself : part (w v₁) (.event id) = part (w v) (.event id) := by
    rw [hF, hF, rely_part hr₁ h.owned]
  have hget : ∀ h, (w v₁).deliveries.get? (id, h) = (w v).deliveries.get? (id, h) := by
    intro hd
    rw [← get?_deliveriesOf, ← get?_deliveriesOf]
    exact congrArg (fun p => p.deliveries.get? (id, hd)) hself
  refine ⟨hw.writes (List.mem_append_left _ h.owned) fun hd => ?_,
    Guard.Safe.ret fun v₂ tr₂ hr₂ => ?_⟩
  · rw [rely_delivery hr₁ h.owned, rely_invocations hr₁ h.owned, hget]
    exact hdevelops hd
  · have hafter : Working handled rows id none (own ++ keys v₁) (w v₁) tr₁ := by
      refine ((h.rely hr₁).grow (hkeys v₁)).write hw (fun hd => ?_) fun hh => ?_
      · rw [hget, rely_invocations hr₁ h.owned]
        exact hok hd
      · rw [hself]
        exact hvalid hh
    refine ⟨hafter.rely hr₂, (rely_part hr₂ hafter.owned).trans hself, fun hh => ?_⟩
    have hall := hassumes hh
    cases r with
    | cycle registry config =>
      intro j e hj he hds
      obtain rfl : j = id := by simpa using hj
      have hrows := congrArg (fun p => p.deliveries.rows) (rely_part hr₁ h.owned)
      exact hall j e h.owned ((rely_event hr₁ h.owned).trans he) fun hnil =>
        hds (hrows.symm.trans hnil)
    | publish topic payload => exact trivial
    | publishWithDelay topic payload delay => exact trivial

/-! ## One delivery -/

theorem get?_mapDelivery (f : DeliveryRow → DeliveryRow) (hf : ∀ d, (f d).key = d.key)
    (h : String) : (v.mapDelivery id handler f hf).deliveries.get? (id, h) =
      if h = handler then (v.deliveries.get? (id, h)).map f else v.deliveries.get? (id, h) := by
  show (v.deliveries.modify (id, handler) f hf).get? (id, h) = _
  rw [Table.get?_modify]
  simp only [Prod.mk.injEq, true_and]

/-- An update of the delivery of one subscriber that has just been called, or has not. -/
theorem updateDelivery_safe {f : DeliveryRow → DeliveryRow} {hf : ∀ d, (f d).key = d.key}
    {called : Option String} {d : DeliveryRow} (h : Working handled rows id called own v tr)
    (hcalled : ∀ hd, called = some hd → hd = handler)
    (hd : v.deliveries.get? (id, handler) = some d) (hpending : d.status = .pending)
    (hmax : (f d).maxAttempts = d.maxAttempts)
    (hok : DeliveryOk (some (f d)) (invocations id handler tr))
    (hfinite : (f d).status = .pending → (f d).nextAttemptAt ≠ ⊤) :
    (deliveryGuard handled).Safe r
      (fun _ own' v' tr' => Working handled rows id none own' v' tr' ∧
        ∀ hd, hd ≠ handler → v'.deliveries.get? (id, hd) = v.deliveries.get? (id, hd))
      (updateDelivery id handler f hf) own v tr := by
  have hget (hd : String) : (v.mapDelivery id handler f hf).deliveries.get? (id, hd) =
      if hd = handler then (v.deliveries.get? (id, hd)).map f else v.deliveries.get? (id, hd) :=
    get?_mapDelivery f hf hd
  refine (PartWrite.safe (partWrite_mapDelivery id handler f hf) ?_ h ?_ ?_ ?_).mono
    fun _ own' v' tr' ⟨hw, hself, _⟩ => ⟨hw, fun hd' hne => ?_⟩
  · intro x k hk
    split at hk
    · exact .inr ⟨handler, List.mem_singleton.mp hk⟩
    · cases hk
  · intro hd'
    rw [hget]
    split
    · next heq =>
      rw [heq, hd]
      exact ⟨hmax, fun _ => hmax ▸ hok.1, fun ht => absurd hpending ht⟩
    · exact Develops.refl _ _
  · intro hd'
    rw [hget]
    split
    · next heq =>
      rw [heq, hd]
      exact hok
    · next hne =>
      exact h.ok hd' fun hc => hne (hcalled hd' hc)
  · intro hh
    have hvalid := h.valid hh
    rw [part_mapDelivery]
    refine ⟨fun hnone => ?_, fun d' hd' => ?_⟩
    · have hnil : (v.deliveriesOf id).rows = [] := hvalid.known hnone
      show (v.deliveriesOf id).rows.map _ = []
      rw [hnil, List.map_nil]
    · change d' ∈ ((v.deliveriesOf id).modify (id, handler) f hf).rows at hd'
      rcases Table.mem_rows_modify hd' with hin | ⟨d'', hget'', rfl⟩
      · exact hvalid.finite d' hin
      · rw [get?_deliveriesOf, hd] at hget''
        obtain rfl := Option.some.inj hget''
        exact hfinite
  · have := congrArg (fun p => p.deliveries.get? (id, hd')) hself
    simp only [part, get?_deliveriesOf] at this
    rw [this, hget, if_neg hne]

/-- The plan after a failed call has counted it, and sets a time if it leaves the delivery
pending. -/
theorem recordRetry_ok {now backoff : ℤ} {error : String} {d : DeliveryRow} {n : ℕ}
    {plan : RetryPlan}
    (hplan : RetryPlan.fromFailure d.attempts d.maxAttempts backoff error = plan)
    (hn : n ≤ d.attempts + 1) (hmax : n ≤ d.maxAttempts) :
    DeliveryOk (some (d.recordRetry now plan)) n ∧
      ((d.recordRetry now plan).status = .pending →
        (d.recordRetry now plan).nextAttemptAt ≠ ⊤) := by
  rcases RetryPlan.fromFailure_cases _ _ _ _ hplan with ⟨hs, -, -⟩ | ⟨-, ha, secs, ht⟩
  · have hnot : (d.recordRetry now plan).status ≠ .pending := by
      rw [DeliveryRow.recordRetry, hs]
      exact DeliveryStatus.noConfusion
    exact ⟨⟨hmax, fun hp => absurd hp hnot⟩, fun hp => absurd hp hnot⟩
  · refine ⟨⟨hmax, fun _ => ?_⟩, fun _ => ?_⟩
    · rw [DeliveryRow.recordRetry, ha]
      exact hn
    · rw [DeliveryRow.recordRetry, ht]
      exact WithTop.coe_ne_top

theorem isDue_iff {now : ℤ} {d : DeliveryRow} : d.isDue now = true ↔
    d.status = .pending ∧ d.attempts < d.maxAttempts ∧ d.nextAttemptAt ≤ (now : Timestamp) := by
  simp only [DeliveryRow.isDue, Bool.and_eq_true, decide_eq_true_eq, and_assoc]

/-- The call is within the bound, and the update counts it. -/
theorem deliverOne_safe {now : ℤ} {config : DispatcherConfig} {payload : String}
    {d : DeliveryRow} (h : Working handled rows id none own v tr)
    (hd : v.deliveries.get? (id, d.handler) = some d) (hdue : d.isDue now = true) :
    (deliveryGuard handled).Safe r
      (fun _ own' v' tr' => Working handled rows id none own' v' tr' ∧
        ∀ hd, hd ≠ d.handler → v'.deliveries.get? (id, hd) = v.deliveries.get? (id, hd))
      (deliverOne now config payload id d) own v tr := by
  obtain ⟨hpending, hattempts, htime⟩ := isDue_iff.mp hdue
  refine Guard.Safe.ask_bind fun v₁ tr₁ hr₁ => ?_
  have h₁ := h.rely hr₁
  have hd₁ : v₁.deliveries.get? (id, d.handler) = some d := (rely_delivery hr₁ h.owned).trans hd
  have hok := h₁.ok d.handler (by simp)
  rw [hd₁] at hok
  have hcount : invocations id d.handler tr₁ ≤ d.attempts := hok.2 hpending
  refine ⟨⟨d, hd₁, hpending, htime, by omega⟩, fun result => ⟨?_, ?_⟩⟩
  · -- the call is recorded with the event of the delivery
    intro k hk
    cases k with
    | delivery j hd => cases hk
    | event j =>
      obtain rfl : id = j := by simpa [deliveryGuard, concerns] using hk
      refine ⟨h.owned, moves_iff.mpr fun hd => ?_⟩
      rw [invocations_append]
      by_cases hh : d.handler = hd
      · subst hh
        rw [hd₁]
        refine ⟨rfl, fun _ => ?_, fun ht => absurd hpending ht⟩
        simp [invocations, invokes] at hcount ⊢
        omega
      · have hzero : invocations id hd
            [(.called (.invoke now id d.handler payload) result : Event Request Answer)] = 0 := by
          simp [invocations, invokes, hh]
        rw [hzero, Nat.add_zero]
        exact Develops.refl _ _
  · -- this delivery has been called once more, the others have not
    have hone : invocations id d.handler
        (tr₁ ++ [(.called (.invoke now id d.handler payload) result : Event Request Answer)]) =
        invocations id d.handler tr₁ + 1 := by
      simp [invocations, invokes]
    have hcalled : Working handled rows id (some d.handler) own v₁
        (tr₁ ++ [.called (.invoke now id d.handler payload) result]) := by
      refine ⟨h₁.fetched, h₁.owned, fun k hk hne => ?_, fun hd hne => ?_, h₁.valid⟩
      · have hold := h₁.others k hk hne
        cases k with
        | delivery j hd => exact trivial
        | event j =>
          have hj : id ≠ j := fun hj => hne (hj ▸ rfl)
          obtain ⟨hok, hcons⟩ := holds_iff.mp hold
          refine holds_iff.mpr ⟨fun hd => ?_, hcons⟩
          simpa [invocations, invokes, hj] using hok hd
      · have hne' : d.handler ≠ hd := fun heq => hne (congrArg some heq)
        simpa [invocations, invokes, hne'] using h₁.ok hd (by simp)
    have hbound : invocations id d.handler tr₁ + 1 ≤ d.maxAttempts := by omega
    have hsame : ∀ hd, v₁.deliveries.get? (id, hd) = v.deliveries.get? (id, hd) :=
      fun hd => rely_delivery hr₁ h.owned
    have hown : ∀ hd, some d.handler = some hd → hd = d.handler :=
      fun hd heq => (Option.some.inj heq).symm
    simp only [← hsame]
    cases result with
    | ok =>
      refine updateDelivery_safe hcalled hown hd₁ hpending rfl ?_ fun hp => ?_
      · rw [hone]
        exact ⟨hbound, fun hp => by cases hp⟩
      · cases hp
    | err message =>
      obtain ⟨hok', hfinite⟩ := recordRetry_ok rfl (by omega) hbound
      exact updateDelivery_safe hcalled hown hd₁ hpending rfl (hone ▸ hok') hfinite
    | panicked message =>
      refine updateDelivery_safe hcalled hown hd₁ hpending rfl ?_ fun hp => ?_
      · rw [hone]
        exact ⟨hbound, fun hp => by cases hp⟩
      · cases hp

theorem processDelivery_safe {now : ℤ} {config : DispatcherConfig} {handlers : List String}
    {payload : String} {d : DeliveryRow} (h : Working handled rows id none own v tr)
    (hd : v.deliveries.get? (id, d.handler) = some d) (hdue : d.isDue now = true) :
    (deliveryGuard handled).Safe r
      (fun _ own' v' tr' => Working handled rows id none own' v' tr' ∧
        ∀ hd, hd ≠ d.handler → v'.deliveries.get? (id, hd) = v.deliveries.get? (id, hd))
      (processDelivery now config handlers payload id d) own v tr := by
  unfold processDelivery
  split
  · exact deliverOne_safe h hd hdue
  · obtain ⟨hpending, -, -⟩ := isDue_iff.mp hdue
    have hok := h.ok d.handler (by simp)
    rw [hd] at hok
    refine updateDelivery_safe h (fun hd hc => by cases hc) hd hpending rfl ?_ fun hp => ?_
    · exact ⟨hok.1, fun hp => by cases hp⟩
    · cases hp

/-! ## One event -/

theorem get?_ensure (now : ℤ) (handlers : List String) (v : Outbox) (h : String) :
    (v.ensure now id handlers).deliveries.get? (id, h) = v.deliveries.get? (id, h) ∨
    v.deliveries.get? (id, h) = none ∧ ∃ maxAttempts hd,
      (v.ensure now id handlers).deliveries.get? (id, h) =
        some (DeliveryRow.ensured now id maxAttempts hd) := by
  unfold Outbox.ensure
  cases v.events.get? id with
  | none => exact .inl rfl
  | some q =>
    cases hold : v.deliveries.get? (id, h) with
    | some d => exact .inl (Table.get?_insertAll_of_some hold)
    | none =>
      cases hnew : (v.deliveries.insertAll
          (handlers.map (DeliveryRow.ensured now id q.maxAttempts))).get? (id, h) with
      | none => exact .inl rfl
      | some d =>
        rcases Table.get?_insertAll hnew with h' | ⟨-, hin⟩
        · rw [hold] at h'
          cases h'
        · obtain ⟨hd, -, rfl⟩ := List.mem_map.mp hin
          exact .inr ⟨rfl, _, _, rfl⟩

theorem ensure_valid {now : ℤ} {handlers : List String} (h : (part v (.event id)).Valid) :
    (part (v.ensure now id handlers) (.event id)).Valid := by
  rw [part_ensure_self, Part.ensure]
  cases hq : (part v (.event id)).event with
  | none => exact h
  | some q =>
    refine ⟨fun hnone => ?_, fun d hd hp => ?_⟩
    · exact absurd hnone (Option.some_ne_none q)
    · rcases Table.get?_insertAll (Table.get?_of_mem hd) with hold | ⟨-, hin⟩
      · exact h.finite d (Table.mem_of_get? hold) hp
      · obtain ⟨hd', -, rfl⟩ := List.mem_map.mp hin
        exact WithTop.coe_ne_top

theorem ensureDeliveries_safe {now : ℤ} {handlers : List String}
    (h : Working handled rows id none own v tr) :
    (deliveryGuard handled).Safe r
      (fun _ own' v' tr' => Working handled rows id none own' v' tr')
      (ensureDeliveries now id handlers) own v tr := by
  refine (PartWrite.safe (partWrite_ensure now id handlers) ?_ h ?_ ?_ fun hh =>
    ensure_valid (h.valid hh)).mono fun _ own' v' tr' ⟨hw, _⟩ => hw
  · intro x k hk
    obtain ⟨hd, -, rfl⟩ := List.mem_map.mp hk
    exact .inr ⟨hd, rfl⟩
  · intro hd
    rcases get?_ensure now handlers v hd with heq | ⟨hnone, m, hd', hsome⟩
    · rw [heq]
      exact Develops.refl _ _
    · rw [hnone, hsome]
      exact fun hn => hn ▸ Nat.zero_le _
  · intro hd
    have hok := h.ok hd (by simp)
    rcases get?_ensure now handlers v hd with heq | ⟨hnone, m, hd', hsome⟩
    · rw [heq]
      exact hok
    · rw [hnone] at hok
      rw [hsome, hok]
      exact ⟨Nat.zero_le _, fun _ => Nat.zero_le _⟩

/-- The due deliveries are rows of the table, one for each handler. -/
theorem mem_dueDeliveries {now : ℤ} {d : DeliveryRow} (h : d ∈ v.dueDeliveries now id) :
    v.deliveries.get? (id, d.handler) = some d ∧ d.isDue now = true := by
  obtain ⟨hd, hdue⟩ := List.mem_filter.mp ((List.perm_insertionSort _ _).mem_iff.mp h)
  exact ⟨(mem_deliveriesOf hd).2, hdue⟩

theorem nodup_dueDeliveries (now : ℤ) (id : ℕ) (v : Outbox) :
    ((v.dueDeliveries now id).map DeliveryRow.handler).Nodup := by
  have hkeys : ((v.deliveriesOf id).rows.map DeliveryRow.key) =
      ((v.deliveriesOf id).rows.map DeliveryRow.handler).map (Prod.mk id) := by
    rw [List.map_map]
    refine List.map_congr_left fun d hd => ?_
    rw [Function.comp_apply, DeliveryRow.key, (mem_deliveriesOf hd).1]
  have hnodup : ((v.deliveriesOf id).rows.map DeliveryRow.handler).Nodup :=
    List.Nodup.of_map _ (hkeys ▸ (v.deliveriesOf id).nodup)
  have hfilter := hnodup.sublist
    ((List.filter_sublist (p := DeliveryRow.isDue now)).map DeliveryRow.handler)
  exact ((List.perm_insertionSort _ _).map DeliveryRow.handler).nodup_iff.mpr hfilter

theorem forEach_processDelivery_safe {now : ℤ} {config : DispatcherConfig}
    {handlers : List String} {payload : String} {ds : List DeliveryRow}
    (h : Working handled rows id none own v tr)
    (hds : ∀ d ∈ ds, v.deliveries.get? (id, d.handler) = some d ∧ d.isDue now = true)
    (hnodup : (ds.map DeliveryRow.handler).Nodup) :
    (deliveryGuard handled).Safe r
      (fun _ own' v' tr' => Working handled rows id none own' v' tr')
      (Prog.forEach ds (processDelivery now config handlers payload id)) own v tr := by
  -- the deliveries that are still to come are as they were read
  have hloop := Guard.Safe.forEach_rest (G := deliveryGuard handled) (r := r)
    (f := processDelivery now config handlers payload id)
    (P := fun rest own v tr => Working handled rows id none own v tr ∧
      (∀ d ∈ rest, v.deliveries.get? (id, d.handler) = some d ∧ d.isDue now = true) ∧
      (rest.map DeliveryRow.handler).Nodup)
    (fun d rest own v tr ⟨hw, hrest, hnodup⟩ => ?_) (fun own v tr v' tr' ⟨hw, _⟩ hr => ?_)
    ⟨h, hds, hnodup⟩
  · exact hloop.mono fun _ _ _ _ hp => hp.1
  · obtain ⟨hd, hdue⟩ := hrest d List.mem_cons_self
    obtain ⟨hnot, hnodup'⟩ := List.nodup_cons.mp hnodup
    refine (processDelivery_safe hw hd hdue).mono fun _ own' v' tr' ⟨hw', hsame⟩ => ?_
    refine ⟨hw', fun d' hd' => ?_, hnodup'⟩
    have hne : d'.handler ≠ d.handler := fun heq =>
      hnot (heq ▸ List.mem_map_of_mem hd')
    rw [hsame d'.handler hne]
    exact hrest d' (List.mem_cons_of_mem d hd')
  · exact ⟨hw.rely hr, fun d hd => absurd hd List.not_mem_nil, List.nodup_nil⟩

theorem refreshMessageState_safe {now : ℤ} (h : Working handled rows id none own v tr) :
    (deliveryGuard handled).Safe r (fun _ own' v' tr' => Resting handled rows own' v' tr')
      (refreshMessageState now id) own v tr := by
  refine (PartWrite.safe (partWrite_refresh now id) ?_ h (fun hd => Develops.refl _ _)
    (fun hd => h.ok hd (by simp)) fun hh => ?_).mono fun _ own' v' tr' ⟨hw, hself, _⟩ =>
      hw.resting fun hh => ?_
  · intro x k hk
    split at hk
    · exact .inl (List.mem_singleton.mp hk)
    · cases hk
  · rw [part_refresh]
    exact ⟨fun hnone => (h.valid hh).known (Option.map_eq_none_iff.mp hnone),
      (h.valid hh).finite⟩
  · rw [hself, part_refresh]
    refine ⟨⟨fun hnone => (h.valid hh).known (Option.map_eq_none_iff.mp hnone),
      (h.valid hh).finite⟩, fun e he _ => ?_⟩
    obtain ⟨e', -, rfl⟩ := Option.map_eq_some_iff.mp he
    exact refreshed_aggregates now _ e'

/-- The row of an event without subscribers is closed; by assumption it has no deliveries. -/
theorem markEventsTerminalFailure_safe {registry : Registry} {config : DispatcherConfig}
    {row : MessageRow} {error : String} (h : Working handled rows row.id none own v tr)
    (hrow : row ∈ rows) (hget : registry.get row.topic = none) :
    (deliveryGuard handled).Safe (.cycle registry config)
      (fun _ own' v' tr' => Resting handled rows own' v' tr')
      (markEventsTerminalFailure row.id error) own v tr := by
  have hpart : part (v.mapEvent row.id (EventRow.markTerminalFailure error)
      (EventRow.markTerminalFailure_id error)) (.event row.id) =
      ⟨(v.events.get? row.id).map (EventRow.markTerminalFailure error), v.deliveriesOf row.id⟩ := by
    rw [part_mapEvent, if_pos rfl]
  have hvalid : handled → (part (v.mapEvent row.id (EventRow.markTerminalFailure error)
      (EventRow.markTerminalFailure_id error)) (.event row.id)).Valid := by
    intro hh
    rw [hpart]
    exact ⟨fun hnone => (h.valid hh).known (Option.map_eq_none_iff.mp hnone),
      (h.valid hh).finite⟩
  refine (PartWrite.safe (partWrite_mapEvent (EventRow.markTerminalFailure error)
    (EventRow.markTerminalFailure_id error) fun _ => rfl) ?_ h (fun hd => Develops.refl _ _)
    (fun hd => h.ok hd (by simp)) hvalid).mono fun _ own' v' tr' ⟨hw, hself, hhandles⟩ =>
      hw.resting fun hh => ?_
  · intro x k hk
    split at hk
    · exact .inl (List.mem_singleton.mp hk)
    · cases hk
  · rw [hself]
    refine ⟨hvalid hh, fun e he hds => ?_⟩
    rw [hpart] at hds
    obtain ⟨q, hq, htopic⟩ := Option.map_eq_some_iff.mp (h.fetched row hrow).2
    refine absurd hget ?_
    rw [← htopic]
    exact hhandles hh row.id q (List.mem_singleton_self _) hq hds

/-- An event is in order again after it has been processed. -/
theorem processMessage_safe {fromStr : String → Option String} {registry : Registry}
    {config : DispatcherConfig} {now : ℤ} {row : MessageRow} (hrow : row ∈ rows)
    (h : Resting handled rows own v tr) :
    (deliveryGuard handled).Safe (.cycle registry config)
      (fun _ own' v' tr' => Resting handled rows own' v' tr')
      (processMessage fromStr registry config now row) own v tr := by
  have hw := h.working hrow
  cases hjson : fromStr row.payload with
  | some e =>
    simp only [processMessage, hjson]
    exact trivial
  | none =>
    cases hget : registry.get row.topic with
    | none =>
      simp only [processMessage, hjson, hget]
      exact markEventsTerminalFailure_safe hw hrow hget
    | some handlers =>
      simp only [processMessage, hjson, hget]
      refine Guard.Safe.bind ((ensureDeliveries_safe hw).mono fun _ own₁ v₁ tr₁ h₁ => ?_)
      refine Guard.Safe.select_bind fun v₂ tr₂ hr₂ => ?_
      refine Guard.Safe.bind ((forEach_processDelivery_safe (h₁.rely hr₂)
        (fun d hd => mem_dueDeliveries hd) (nodup_dueDeliveries now row.id v₂)).mono
        fun _ own₃ v₃ tr₃ h₃ => ?_)
      exact refreshMessageState_safe h₃

/-! ## Requests -/

/-- Questions other than calls concern no event. -/
theorem hears_now (t : ℤ) : (deliveryGuard handled).Hears own v tr (.called .now t) :=
  Guard.Hears.of_none fun k => by cases k <;> rfl

theorem hears_nextval (n : ℕ) : (deliveryGuard handled).Hears own v tr (.called .nextval n) :=
  Guard.Hears.of_none fun k => by cases k <;> rfl

/-- The rows that a cycle has locked are in order, because nobody owned them. -/
theorem resting_of_fetch (keys : List Key)
    (hr : (deliveryGuard handled).Rely [] v tr v' tr') :
    Resting handled (keys.filterMap (messageRow v')) ([] ++ keys) v' tr' := by
  refine ⟨fun row hrow => ?_, fun k _ => hr.rest k List.not_mem_nil⟩
  obtain ⟨k, hk, hmsg⟩ := List.mem_filterMap.mp hrow
  cases k with
  | delivery id h => cases hmsg
  | event id =>
    obtain ⟨q, hq, rfl⟩ := Option.map_eq_some_iff.mp hmsg
    obtain rfl : q.id = id := Table.key_of_get? hq
    refine ⟨hk, ?_⟩
    show (v'.events.get? q.id).map EventRow.topic = some q.topic
    rw [hq, Option.map_some]

theorem runOneCycle_safe {fromStr : String → Option String} {registry : Registry}
    {config : DispatcherConfig} :
    (deliveryGuard handled).Safe (.cycle registry config)
      (fun _ own v tr => ∀ k ∈ own, (deliveryGuard handled).Holds k v tr)
      (runOneCycle fromStr registry config) [] v tr := by
  refine Guard.Safe.ask_bind fun v₁ tr₁ hr₁ => ⟨trivial, fun now => ⟨hears_now now, ?_⟩⟩
  refine Guard.Safe.selectSkipLocked_bind fun v₂ tr₂ ks hr₂ _ => ?_
  have hrest := resting_of_fetch ks hr₂
  generalize ks.filterMap (messageRow v₂) = rows at hrest
  split
  · exact Guard.Safe.ret fun v₃ tr₃ hr₃ => (hrest.rely hr₃).holds
  · refine Guard.Safe.bind ((Guard.Safe.forEach (P := Resting handled rows)
      (fun row hrow own v tr h => processMessage_safe hrow h)
      (fun _ _ _ _ _ h hr => h.rely hr) hrest).mono fun _ own v tr h => ?_)
    exact Guard.Safe.ret fun v' tr' hr => (h.rely hr).holds

/-- A new event is in order: it has no deliveries. -/
theorem insertEvent_safe {row : EventRow} :
    (deliveryGuard handled).Safe r
      (fun _ own v tr => ∀ k ∈ own, (deliveryGuard handled).Holds k v tr)
      (insertEvent row) [] v tr := by
  rw [← Prog.bind_ret (insertEvent row)]
  refine Guard.Safe.insert_bind fun v₁ tr₁ hr₁ hfree => ?_
  have hnone : v₁.events.get? row.id = none := by
    unfold insertRefusal at hfree
    split at hfree
    · cases hfree
    · split at hfree
      · cases hfree
      · next hhas => exact Table.has_eq_false.mp (by simpa using hhas)
  have hown : Key.event row.id ∈ [] ++ [Key.event row.id] := List.mem_singleton_self _
  refine ⟨⟨Guard.Frame.of_part hown (fun p => ⟨some (p.event.getD row), p.deliveries⟩)
    (fun x => ?_) fun k hk x => ?_, fun k hk => ?_⟩, Guard.Safe.ret fun v₂ tr₂ hr₂ k hk => ?_⟩
  · show part (x.insertEvent row) (.event row.id) = _
    rw [part_insertEvent]
    cases hx : x.events.get? row.id with
    | none => simp [part, deliveryGuard, hx, Table.get?_insert_self hx]
    | some q => simp [part, deliveryGuard, hx, Table.get?_insert_of_some hx]
  · cases k with
    | delivery id h => rfl
    | event id =>
      have hne : row.id ≠ id := fun heq => hk (heq ▸ rfl)
      show part (x.insertEvent row) (.event id) = part x (.event id)
      rw [part_insertEvent, Table.get?_insert_of_ne hne, part]
  · obtain rfl : k = .event row.id := by simpa using hk
    exact moves_iff.mpr fun h => Develops.refl _ _
  · obtain rfl : k = .event row.id := by simpa using hk
    have hpart : part v₂ (.event row.id) = ⟨some row, v₁.deliveriesOf row.id⟩ := by
      rw [rely_part hr₂ hown, part_insertEvent, Table.get?_insert_self hnone]
    obtain ⟨hok, hcons⟩ := holds_iff.mp (hr₁.rest (.event row.id) List.not_mem_nil)
    refine holds_iff.mpr ⟨fun h => ?_, fun hh => ?_⟩
    · rw [rely_delivery hr₂ hown, rely_invocations hr₂ hown]
      exact hok h
    · have hempty : (v₁.deliveriesOf row.id).rows = [] := (hcons hh).known hnone
      rw [hpart]
      refine ⟨⟨fun _ => hempty, fun d hd => ?_⟩, fun _ _ hds => absurd hempty hds⟩
      exact absurd (hempty ▸ hd : d ∈ []) List.not_mem_nil

/-- Every request leaves what it owns in order when it commits. -/
theorem request_safe {fromStr : String → Option String} (r : Request) (v : Outbox)
    (tr : List (Event Request Answer)) :
    (deliveryGuard handled).Safe r (fun _ => (deliveryGuard handled).Done r) (r.run fromStr)
      [] v tr := by
  suffices h : (deliveryGuard handled).Safe r
      (fun _ own v tr => ∀ k ∈ own, (deliveryGuard handled).Holds k v tr) (r.run fromStr)
      [] v tr by
    refine h.mono fun _ own v tr hall => ⟨fun k hk => ?_, ?_⟩
    · -- a commit is no call
      have hlog : (deliveryGuard handled).log k (tr ++ [.committed r]) =
          (deliveryGuard handled).log k tr := by
        have hnil : (deliveryGuard handled).log k [.committed r] = [] := by
          refine Guard.log_eq_nil fun e he => ?_
          rw [List.mem_singleton.mp he]
          cases k <;> rfl
        rw [Guard.log_append, hnil, List.append_nil]
      unfold Guard.Holds
      rw [hlog]
      exact hall k hk
    · exact Guard.Hears.of_none fun k => by cases k <;> rfl
  cases r with
  | cycle registry config =>
    refine Guard.Safe.bind (runOneCycle_safe.mono fun _ own v tr hall => ?_)
    exact Guard.Safe.ret fun v' tr' hr k _ => hr.holds hall k
  | publish topic payload =>
    refine Guard.Safe.ask_bind fun v₁ tr₁ hr₁ => ⟨trivial, fun now => ⟨hears_now now, ?_⟩⟩
    refine Guard.Safe.ask_bind fun v₂ tr₂ hr₂ => ⟨trivial, fun id => ⟨hears_nextval id, ?_⟩⟩
    exact insertEvent_safe
  | publishWithDelay topic payload delay =>
    refine Guard.Safe.ask_bind fun v₁ tr₁ hr₁ => ⟨trivial, fun now => ⟨hears_now now, ?_⟩⟩
    refine Guard.Safe.ask_bind fun v₂ tr₂ hr₂ => ⟨trivial, fun id => ⟨hears_nextval id, ?_⟩⟩
    exact insertEvent_safe

end Slab.EventBus
