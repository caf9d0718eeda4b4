import Slab.EventBus.CycleSafety
import Slab.Txn.Latest

/-!
# Bounded and isolated delivery

Any number of dispatchers and publishers run side by side, each cycle with its own registry.
As long as no dispatcher transaction is lost, every subscriber is called for an event at most as
often as its delivery allows, only while the delivery is pending and due, and never again once
it is delivered or failed.

## Main results

- `deliveries_bounded_of_recorded` — along every run
-/

namespace Slab.EventBus

open Txn

/-- The database, the open transactions and the record. -/
abbrev OutboxConfig := Config Outbox Key Answer String Unit Request

def Request.isCycle : Request → Bool
  | cycle _ _ => true
  | _ => false

/-- No dispatcher transaction aborts. -/
def NoCycleAborts (c : OutboxConfig) (a : Action Request Answer) : Prop :=
  ∀ i s, c.Loses a i s → s.request.isCycle = false

/-- The latest version of a delivery row: what the transaction that works on the event sees, and
what is committed when there is none. -/
def latestDelivery (c : OutboxConfig) (id : ℕ) (handler : String) : Option DeliveryRow :=
  (c.latest (.event id)).deliveries.get? (id, handler)

/-! ## Publishers -/

theorem publisher_preserves {fromStr : String → Option String} {r : Request}
    (hr : r.isCycle = false) : (r.run fromStr).Preserves Outbox.deliveries := by
  cases r with
  | cycle registry config => cases hr
  | publish topic payload =>
    refine (Prog.preserves_ask _).bind fun now => (Prog.preserves_ask _).bind fun id => ?_
    exact Prog.preserves_insert fun _ => rfl
  | publishWithDelay topic payload delay =>
    refine (Prog.preserves_ask _).bind fun now => (Prog.preserves_ask _).bind fun id => ?_
    exact Prog.preserves_insert fun _ => rfl

/-- A publisher calls nobody. -/
theorem run_asks (fromStr : String → Option String) (r : Request) :
    (r.run fromStr).Asks fun q => r.isCycle = false →
      ∀ now id handler payload, q ≠ .invoke now id handler payload := by
  have hinsert : ∀ row, (insertEvent row).Asks fun q => r.isCycle = false →
      ∀ now id handler payload, q ≠ .invoke now id handler payload := by
    intro row v ks
    show (Prog.refuse (insertRefusal row v) : Tx Unit).Asks _
    cases insertRefusal row v <;> exact trivial
  have hnow : r.isCycle = false → ∀ now id handler payload,
      Ask.now ≠ .invoke now id handler payload := fun _ _ _ _ _ => Ask.noConfusion
  have hnextval : r.isCycle = false → ∀ now id handler payload,
      Ask.nextval ≠ .invoke now id handler payload := fun _ _ _ _ _ => Ask.noConfusion
  cases r with
  | cycle registry config => exact Prog.Asks.of_forall (fun _ h => by cases h) _
  | publish topic payload => exact ⟨hnow, fun _ => ⟨hnextval, fun _ => hinsert _⟩⟩
  | publishWithDelay topic payload delay => exact ⟨hnow, fun _ => ⟨hnextval, fun _ => hinsert _⟩⟩

section Run

variable {fromStr : String → Option String} {initial : Outbox} {c : OutboxConfig}

/-- What a publisher holds when it is lost: no delivery has changed, nobody has been called. -/
theorem publisher_state {ok : OutboxConfig → Action Request Answer → Prop}
    (hr : Run (Request.run fromStr) ok (Config.init initial) c) {i : ℕ}
    {s : Session Outbox Key Answer String Unit Request} (hs : c.session? i = some s)
    (hpub : s.request.isCycle = false) (id : ℕ) (handler : String) :
    (s.writes c.db).deliveries.get? (id, handler) = c.db.deliveries.get? (id, handler) ∧
      invocations id handler s.calls = 0 := by
  constructor
  · exact congrArg (·.get? (id, handler))
      (hr.preserved (P := fun r => r.isCycle = false) (fun _ => publisher_preserves) hs hpub c.db)
  · refine List.countP_eq_zero.mpr fun e he hinv => ?_
    obtain ⟨q, a, rfl, hq⟩ := hr.asked (run_asks fromStr) hs e he
    match q, a, hinv with
    | .invoke now i h payload, a, _ => exact hq hpub now i h payload rfl

theorem sound_of_run {ok : OutboxConfig → Action Request Answer → Prop}
    (hr : Run (Request.run fromStr) ok (Config.init initial) c) :
    (deliveryGuard False).Sound c := by
  refine Guard.Sound.run (fun r v tr _ => request_safe r v tr)
    (fun _ _ _ _ _ _ _ _ hfalse => hfalse.elim) (Guard.Sound.init fun k => ?_) hr
  cases k with
  | delivery id h => exact trivial
  | event id =>
    refine holds_iff.mpr ⟨fun h => ?_, fun hfalse => hfalse.elim⟩
    cases initial.deliveries.get? (id, h) with
    | none => exact rfl
    | some d => exact ⟨Nat.zero_le _, fun _ => Nat.zero_le _⟩

/-- All calls of a run are in the record that the latest version goes with. -/
theorem invocations_eq {calls : List (Event Request Answer)}
    (hr : Recorded (Request.run fromStr) NoCycleAborts (Config.init initial) c calls) (id : ℕ)
    (handler : String) :
    invocations id handler calls = invocations id handler (c.latestTrace (.event id)) := by
  have hheard := hr.countP_eq_heard (p := invokes id handler) (invokes_committed id handler)
    fun d a i s hrun hok hloses => (publisher_state hrun hloses.1 (hok i s hloses) id handler).2
  exact hheard.trans ((sound_of_run hr.run).heard_eq concerns_of_invokes)

theorem latest_develops {d : OutboxConfig} {calls calls' : List (Event Request Answer)}
    (hr : Recorded (Request.run fromStr) NoCycleAborts (Config.init initial) c calls)
    (hr' : Recorded (Request.run fromStr) NoCycleAborts c d calls') (id : ℕ) (handler : String) :
    Develops (latestDelivery c id handler) (invocations id handler calls)
      (latestDelivery d id handler) (invocations id handler (calls ++ calls')) := by
  have hmoves := Guard.Sound.latest_run (G := deliveryGuard False) (k := .event id)
    (fun r v tr _ => request_safe r v tr) (fun _ _ _ _ _ _ _ _ hfalse => hfalse.elim)
    (fun e calls'' a i s hrun hok hloses _ => moves_iff.mpr fun h => ?_) (sound_of_run hr.run) hr'
  · rw [invocations_eq hr, invocations_eq (hr.append hr')]
    exact moves_iff.mp hmoves handler
  · obtain ⟨hrow, hcalls⟩ :=
      publisher_state (hr.append hrun).run hloses.1 (hok i s hloses) id h
    rw [hrow, invocations_append, hcalls, Nat.add_zero]
    exact Develops.refl _ _

end Run

/-! ## Runs -/

/-- Along every run in which no dispatcher transaction aborts:
no subscriber has been called for an event more often than its delivery row allows;
a subscriber is called only while its delivery is pending and due and has a call left;
a delivery row stays with its bound, and once it is delivered or failed it neither changes nor is
called again; and the outcome of one delivery touches no other delivery row. -/
theorem deliveries_bounded_of_recorded {fromStr : String → Option String} {initial : Outbox}
    {c : OutboxConfig} {calls : List (Event Request Answer)}
    (hr : Recorded (Request.run fromStr) NoCycleAborts (Config.init initial) c calls) :
    (∀ id handler d, latestDelivery c id handler = some d →
      invocations id handler calls ≤ d.maxAttempts) ∧
    (∀ i s now id handler payload next, c.session? i = some s →
      s.prog = .call (.invoke now id handler payload) next →
      ∃ d, latestDelivery c id handler = some d ∧ d.status = .pending ∧
        d.nextAttemptAt ≤ (now : Timestamp) ∧ invocations id handler calls < d.maxAttempts) ∧
    (∀ e calls' id handler d, Recorded (Request.run fromStr) NoCycleAborts c e calls' →
      latestDelivery c id handler = some d →
      ∃ d', latestDelivery e id handler = some d' ∧ d'.maxAttempts = d.maxAttempts ∧
        (d.status ≠ .pending → d' = d ∧ invocations id handler calls' = 0)) ∧
    ∀ now config payload id delivery key, key ≠ (id, delivery.handler) →
      (deliverOne now config payload id delivery).Preserves fun v => v.deliveries.get? key := by
  have hsound := sound_of_run hr.run
  refine ⟨fun id handler d hd => ?_, fun i s now id handler payload next hs hp => ?_,
    fun e calls' id handler d hr' hd => ?_, fun now config payload id delivery key hkey =>
      deliverOne_preserves now config payload id delivery hkey⟩
  · -- the committed row keeps the bound, and the latest one develops from it
    have hok := (holds_iff.mp (hsound.holds (.event id))).1 handler
    have hdev := moves_iff.mp (hsound.moves_latest (.event id)) handler
    change Develops _ _ (latestDelivery c id handler) _ at hdev
    rw [invocations_eq hr]
    rw [hd] at hdev
    cases hcommitted : c.db.deliveries.get? (id, handler) with
    | none =>
      rw [hcommitted] at hok hdev
      exact hdev hok
    | some d₀ =>
      rw [hcommitted] at hok hdev
      rw [hdev.1]
      exact hdev.2.1 hok.1
  · have hsafe := hsound.safe i s hs
    rw [hp] at hsafe
    obtain ⟨⟨d, hd, hpending, htime, hcount⟩, hnext⟩ := hsafe _ _ (hsound.rely hs)
    have hown : Key.event id ∈ s.held :=
      ((hnext .ok).1 (.event id) (decide_eq_true rfl)).1
    obtain ⟨hview, htrace⟩ := hsound.latest_eq hs hown
    refine ⟨d, ?_, hpending, htime, ?_⟩
    · rw [latestDelivery, hview]
      exact hd
    · rw [invocations_eq hr, htrace]
      exact hcount
  · have hdev := latest_develops hr hr' id handler
    rw [hd] at hdev
    cases hd' : latestDelivery e id handler with
    | none =>
      rw [hd'] at hdev
      exact hdev.elim
    | some d' =>
      rw [hd'] at hdev
      refine ⟨d', rfl, hdev.1, fun ht => ?_⟩
      obtain ⟨heq, hn⟩ := hdev.2.2 ht
      rw [invocations_append] at hn
      exact ⟨heq, by omega⟩

/-- Answers at time `now`, where the subscribers in `failing` fail. -/
def answers (now : ℤ) (id : ℕ) (failing : List String) : (q : Ask) → Answer q
  | .now => now
  | .nextval => id
  | .invoke _ _ handler _ => if handler ∈ failing then .err "boom" else .ok

def twoSubscribers : Registry := ⟨[("t", ["a", "b"])]⟩

/-- An event is published; two dispatchers fetch at the same time, and the one that gets the
event delivers it to `a` but fails to deliver it to `b`; a third one delivers it to `b`. -/
def twoDispatchers : List (Action Request Answer) :=
  [.start (.publish "t" "{}"), .start (.cycle twoSubscribers .default),
    .start (.cycle twoSubscribers .default), .start (.cycle twoSubscribers .default)] ++
  List.replicate 4 (.step 0 (answers 10 1 [])) ++
  List.replicate 2 (.step 1 (answers 20 0 ["b"])) ++
  List.replicate 3 (.step 2 (answers 21 0 [])) ++
  List.replicate 8 (.step 1 (answers 20 0 ["b"])) ++
  List.replicate 8 (.step 3 (answers (20 + 2 * second) 0 []))

theorem deliveries_bounded_of_recorded_twoDispatchers :
    ∃ c calls, Recorded (Request.run fun _ => none) NoCycleAborts (Config.init .empty) c calls ∧
      invocations 1 "a" calls = 1 ∧ invocations 1 "b" calls = 2 ∧
      (∀ d, latestDelivery c 1 "b" = some d → 2 ≤ (d.maxAttempts : ℕ)) ∧
      ∀ e calls', Recorded (Request.run fun _ => none) NoCycleAborts c e calls' →
        invocations 1 "a" calls' = 0 := by
  have hplay : ((Config.init .empty : OutboxConfig).playRecorded (Request.run fun _ => none)
      (Config.losesOnly fun r => !r.isCycle) twoDispatchers).map (fun (c, calls) =>
        (invocations 1 "a" calls, invocations 1 "b" calls,
          (latestDelivery c 1 "a").map DeliveryRow.status)) =
        some (1, 2, some .delivered) := by
    decide +kernel
  obtain ⟨⟨c, calls⟩, hc, hfacts⟩ := Option.map_eq_some_iff.mp hplay
  obtain ⟨ha, hrest⟩ := Prod.mk.inj hfacts
  obtain ⟨hb, hstatus⟩ := Prod.mk.inj hrest
  have hrun : Recorded (Request.run fun _ => none) NoCycleAborts (Config.init .empty) c calls :=
    Recorded.of_play (fun c a h i s hs => by simpa using Config.of_losesOnly h hs) .refl hc
  obtain ⟨hbound, -, hsettled, -⟩ := deliveries_bounded_of_recorded hrun
  refine ⟨c, calls, hrun, ha, hb, fun d hd => hb ▸ hbound 1 "b" d hd, fun e calls' hr => ?_⟩
  obtain ⟨d, hd, hdelivered⟩ := Option.map_eq_some_iff.mp hstatus
  obtain ⟨d', -, -, hnone⟩ := hsettled e calls' 1 "a" d hr hd
  exact (hnone (by rw [hdelivered]; exact DeliveryStatus.noConfusion)).2

end Slab.EventBus
