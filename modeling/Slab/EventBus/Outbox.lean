import Slab.Txn.Prog
import Slab.Txn.Table

/-!
# The outbox

The two tables of the Postgres event bus, the plan for a failed delivery, the registry of
subscribers, and the questions a dispatcher puts to the world outside the database.

## Main definitions

- `EventRow`, `DeliveryRow`, `Outbox` — `_pg_events` and `_pg_event_deliveries`
- `RetryPlan.fromFailure` — backoff or terminal failure
- `EventRow.refreshed` — the aggregate of an event's deliveries
- `Registry` — topics and the subscribers of each
- `Ask`, `Answer` — clock, sequence and subscribers
-/

namespace Slab.EventBus

open Txn

/-- `TIMESTAMPTZ`, in microseconds, with `'infinity'`. -/
abbrev Timestamp := WithTop ℤ

instance : DecidableLE Timestamp := @WithTop.decidableLE ℤ _ Int.decLe

instance : DecidableLT Timestamp := @WithTop.decidableLT ℤ _ Int.decLt

/-- `interval '1 second'`. -/
def second : ℤ := 1000000

/-! ## Delivery states -/

inductive DeliveryStatus where
  | pending | delivered | failed
deriving DecidableEq

inductive RetryNextAttempt where
  | delaySecs (secs : ℤ)
  | terminal
deriving DecidableEq

structure RetryPlan where
  attempts : ℕ
  status : DeliveryStatus
  lastError : String
  nextAttemptAt : RetryNextAttempt
deriving DecidableEq

/-- Terminal failure after the last attempt, exponential backoff before it. -/
def RetryPlan.fromFailure (attempts maxAttempts : ℕ) (backoffMaxSecs : ℤ) (error : String) :
    RetryPlan :=
  let nextAttempt := attempts + 1
  if nextAttempt ≥ maxAttempts then
    { attempts := maxAttempts
      status := .failed
      lastError := s!"permanently_failed_after_{maxAttempts}_attempts: {error}"
      nextAttemptAt := .terminal }
  else
    let shift := min nextAttempt 10
    { attempts := nextAttempt
      status := .pending
      lastError := error
      nextAttemptAt := .delaySecs (min (2 ^ shift) backoffMaxSecs) }

/-- A failure uses up the attempts, or counts one more and sets a time. -/
theorem RetryPlan.fromFailure_cases (attempts maxAttempts : ℕ) (backoffMaxSecs : ℤ)
    (error : String) {plan : RetryPlan}
    (h : RetryPlan.fromFailure attempts maxAttempts backoffMaxSecs error = plan) :
    plan.status = .failed ∧ plan.attempts = maxAttempts ∧ plan.nextAttemptAt = .terminal ∨
    plan.status = .pending ∧ plan.attempts = attempts + 1 ∧
      ∃ secs, plan.nextAttemptAt = .delaySecs secs := by
  subst h
  by_cases hlast : attempts + 1 ≥ maxAttempts
  · exact .inl (by simp [fromFailure, hlast])
  · exact .inr (by simp [fromFailure, hlast])

/-! ## Rows -/

/-- A row of `_pg_events`. -/
structure EventRow where
  id : ℕ
  topic : String
  payload : String
  status : DeliveryStatus
  deliveredAt : Option ℤ
  attempts : ℕ
  maxAttempts : ℕ+
  nextAttemptAt : Timestamp
  lastError : Option String
deriving DecidableEq

/-- A row of `_pg_event_deliveries`: one subscriber's delivery of one event. -/
structure DeliveryRow where
  eventId : ℕ
  handler : String
  status : DeliveryStatus
  attempts : ℕ
  maxAttempts : ℕ+
  nextAttemptAt : Timestamp
  lastError : Option String
  deliveredAt : Option ℤ
  updatedAt : ℤ
deriving DecidableEq

/-- `PRIMARY KEY (event_id, handler)`. -/
def DeliveryRow.key (d : DeliveryRow) : ℕ × String := (d.eventId, d.handler)

/-- `status = $1 AND attempts < max_attempts AND next_attempt_at <= NOW()`. -/
def DeliveryRow.isDue (now : ℤ) (d : DeliveryRow) : Bool :=
  decide (d.status = .pending) && decide (d.attempts < d.maxAttempts) &&
    decide (d.nextAttemptAt ≤ (now : Timestamp))

structure Outbox where
  events : Table EventRow.id
  deliveries : Table DeliveryRow.key

/-- The rows that statements lock. -/
inductive Key where
  | event (id : ℕ)
  | delivery (id : ℕ) (handler : String)
deriving DecidableEq

/-- `WHERE event_id = $1`. -/
def Outbox.deliveriesOf (v : Outbox) (id : ℕ) : Table DeliveryRow.key :=
  v.deliveries.restrict fun d => d.eventId = id

/-! ## Row updates -/

/-- The row that `publish` inserts: the column defaults, and `nextAttemptAt`. -/
def EventRow.published (id : ℕ) (topic payload : String) (nextAttemptAt : ℤ) : EventRow :=
  { id := id
    topic := topic
    payload := payload
    status := .pending
    deliveredAt := none
    attempts := 0
    maxAttempts := 5
    nextAttemptAt := (nextAttemptAt : Timestamp)
    lastError := none }

/-- The row that `ensure_deliveries` inserts: the column defaults, and `maxAttempts`. -/
def DeliveryRow.ensured (now : ℤ) (id : ℕ) (maxAttempts : ℕ+) (handler : String) : DeliveryRow :=
  { eventId := id
    handler := handler
    status := .pending
    attempts := 0
    maxAttempts := maxAttempts
    nextAttemptAt := (now : Timestamp)
    lastError := none
    deliveredAt := none
    updatedAt := now }

/-- `SET status = delivered, delivered_at = NOW(), last_error = NULL`. -/
def DeliveryRow.markDelivered (now : ℤ) (d : DeliveryRow) : DeliveryRow :=
  { d with status := .delivered, deliveredAt := some now, lastError := none, updatedAt := now }

/-- `SET status = failed, attempts = max_attempts, next_attempt_at = 'infinity'`. -/
def DeliveryRow.markTerminalFailure (now : ℤ) (error : String) (d : DeliveryRow) : DeliveryRow :=
  { d with
    status := .failed
    attempts := d.maxAttempts
    lastError := some error
    nextAttemptAt := ⊤
    updatedAt := now }

/-- The time of the plan's next attempt. -/
def RetryNextAttempt.at (now : ℤ) : RetryNextAttempt → Timestamp
  | delaySecs secs => ((now + secs * second : ℤ) : Timestamp)
  | terminal => ⊤

/-- What `record_delivery_retry` sets. -/
def DeliveryRow.recordRetry (now : ℤ) (plan : RetryPlan) (d : DeliveryRow) : DeliveryRow :=
  { d with
    status := plan.status
    attempts := plan.attempts
    lastError := some plan.lastError
    nextAttemptAt := plan.nextAttemptAt.at now
    updatedAt := now }

theorem DeliveryRow.markDelivered_key (now : ℤ) (d : DeliveryRow) :
    (d.markDelivered now).key = d.key := rfl

theorem DeliveryRow.markTerminalFailure_key (now : ℤ) (error : String) (d : DeliveryRow) :
    (d.markTerminalFailure now error).key = d.key := rfl

theorem DeliveryRow.recordRetry_key (now : ℤ) (plan : RetryPlan) (d : DeliveryRow) :
    (d.recordRetry now plan).key = d.key := rfl

/-- `SET status = failed, attempts = max_attempts, next_attempt_at = 'infinity'`. -/
def EventRow.markTerminalFailure (error : String) (e : EventRow) : EventRow :=
  { e with
    status := .failed
    attempts := e.maxAttempts
    lastError := some error
    nextAttemptAt := ⊤ }

/-- `MIN(next_attempt_at)` of the deliveries that are still pending. -/
def earliestPending (ds : List DeliveryRow) : Timestamp :=
  ((ds.filter fun d => d.status = .pending).map DeliveryRow.nextAttemptAt).foldr min ⊤

/-- `last_error` of the failed delivery that was updated last. -/
def latestFailure (ds : List DeliveryRow) : Option String :=
  ((ds.filter fun d => d.status = .failed).insertionSort
    fun x y => y.updatedAt ≤ x.updatedAt).head?.bind DeliveryRow.lastError

/-- What `refresh_message_state` sets, from the deliveries `ds` of the event. -/
def EventRow.refreshed (now : ℤ) (ds : List DeliveryRow) (e : EventRow) : EventRow :=
  let pending := ds.countP fun d => d.status = .pending
  let failed := ds.countP fun d => d.status = .failed
  { e with
    status := if failed > 0 then .failed else if pending > 0 then .pending else .delivered
    deliveredAt := if pending = 0 ∧ failed = 0 then some now else e.deliveredAt
    nextAttemptAt := if pending > 0 then earliestPending ds else ⊤
    lastError :=
      if failed > 0 then some ((latestFailure ds).getD "some_deliveries_failed")
      else e.lastError }

theorem EventRow.markTerminalFailure_id (error : String) (e : EventRow) :
    (e.markTerminalFailure error).id = e.id := rfl

theorem EventRow.refreshed_id (now : ℤ) (ds : List DeliveryRow) (e : EventRow) :
    (e.refreshed now ds).id = e.id := rfl

namespace Outbox

def empty : Outbox := ⟨.empty, .empty⟩

def insertEvent (e : EventRow) (v : Outbox) : Outbox := { v with events := v.events.insert e }

def mapEvent (id : ℕ) (f : EventRow → EventRow) (hf : ∀ e, (f e).id = e.id) (v : Outbox) :
    Outbox :=
  { v with events := v.events.modify id f hf }

def mapDelivery (id : ℕ) (handler : String) (f : DeliveryRow → DeliveryRow)
    (hf : ∀ d, (f d).key = d.key) (v : Outbox) : Outbox :=
  { v with deliveries := v.deliveries.modify (id, handler) f hf }

/-- `INSERT INTO _pg_event_deliveries SELECT … FROM unnest(handlers) CROSS JOIN _pg_events`:
one row for each handler, as far as the event is there. -/
def ensure (now : ℤ) (id : ℕ) (handlers : List String) (v : Outbox) : Outbox :=
  match v.events.get? id with
  | none => v
  | some q =>
    { v with
      deliveries := v.deliveries.insertAll
        (handlers.map (DeliveryRow.ensured now id q.maxAttempts)) }

/-- The update of `refresh_message_state`. -/
def refresh (now : ℤ) (id : ℕ) (v : Outbox) : Outbox :=
  v.mapEvent id (EventRow.refreshed now (v.deliveriesOf id).rows)
    (EventRow.refreshed_id now (v.deliveriesOf id).rows)

/-- The deliveries of one event that are due, in the order of their handlers. -/
def dueDeliveries (now : ℤ) (id : ℕ) (v : Outbox) : List DeliveryRow :=
  ((v.deliveriesOf id).rows.filter (DeliveryRow.isDue now)).insertionSort
    fun x y => x.handler ≤ y.handler

/-- Events to be fetched: due, and without deliveries yet or with one that is due. -/
def hasWork (now : ℤ) (v : Outbox) (q : EventRow) : Bool :=
  decide (q.nextAttemptAt ≤ (now : Timestamp)) &&
    ((v.deliveriesOf q.id).rows.isEmpty || (v.deliveriesOf q.id).rows.any (DeliveryRow.isDue now))

/-- `ORDER BY next_attempt_at, id`. -/
def fetchOrder (x y : EventRow) : Prop :=
  x.nextAttemptAt < y.nextAttemptAt ∨ x.nextAttemptAt = y.nextAttemptAt ∧ x.id ≤ y.id

instance : DecidableRel fetchOrder := fun _ _ => inferInstanceAs (Decidable (_ ∨ _ ∧ _))

def dueEvents (now : ℤ) (v : Outbox) : List EventRow :=
  (v.events.rows.filter (v.hasWork now)).insertionSort fetchOrder

end Outbox

/-! ## Subscribers -/

/-- Topics with the names of their subscribers, in the order of registration. -/
structure Registry where
  handlers : List (String × List String)
deriving DecidableEq

namespace Registry

def empty : Registry := ⟨[]⟩

/-- The subscribers of a topic; `none` when nobody has registered for it. -/
def get (r : Registry) (topic : String) : Option (List String) := r.handlers.lookup topic

/-- `register`; `none` where it panics because the name is taken. -/
def register (topic name : String) (r : Registry) : Option Registry :=
  match r.get topic with
  | none => some ⟨r.handlers ++ [(topic, [name])]⟩
  | some names =>
    if name ∈ names then none
    else some ⟨r.handlers.map fun e => if e.1 = topic then (e.1, e.2 ++ [name]) else e⟩

end Registry

/-- How a call of a subscriber ends. -/
inductive HandleResult where
  | ok
  | err (message : String)
  | panicked (message : Option String)
deriving DecidableEq

/-- What a transaction asks outside the tables. `now` is `NOW()`, the time at which it began;
`invoke` calls a subscriber. -/
inductive Ask where
  | now
  | nextval
  | invoke (now : ℤ) (id : ℕ) (handler : String) (payload : String)
deriving DecidableEq

abbrev Answer : Ask → Type
  | .now => ℤ
  | .nextval => ℕ
  | .invoke _ _ _ _ => HandleResult

/-- Transactions on the outbox; errors are texts. -/
abbrev Tx (α : Type) := Prog Outbox Key Answer String α

end Slab.EventBus
