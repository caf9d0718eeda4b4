import Slab.EventBus.Outbox

/-!
# The dispatcher

Publishing and one dispatcher cycle: fetch due events and lock them, and for each of them make
sure that every subscriber has a delivery row, call the subscribers that are due, and refresh
the event row.

## Main definitions

- `runOneCycle`, `processMessage`, `deliverOne`, `refreshMessageState` — the cycle
- `publish`, `publishWithDelay` — new events
- `Request.run` — a publisher's or a dispatcher's transaction

## Main results

- `deliverOne_preserves` — whatever a subscriber answers, the other deliveries stay as they are
-/

namespace Slab.EventBus

open Txn

def ask (q : Ask) : Tx (Answer q) := Prog.ask q

structure DispatcherConfig where
  backoffMaxSecs : ℤ
  batchSize : ℤ
deriving DecidableEq

def DispatcherConfig.default : DispatcherConfig := { backoffMaxSecs := 300, batchSize := 32 }

/-- The columns of `_pg_events` that a cycle fetches. -/
structure MessageRow where
  id : ℕ
  topic : String
  payload : String
deriving DecidableEq

/-! ## Statements -/

/-- `UPDATE _pg_event_deliveries … WHERE event_id = $1 AND handler = $2`. -/
def updateDelivery (id : ℕ) (handler : String) (f : DeliveryRow → DeliveryRow)
    (hf : ∀ d, (f d).key = d.key) : Tx Unit :=
  Prog.update (fun v => if v.deliveries.has (id, handler) then [.delivery id handler] else [])
    (Outbox.mapDelivery id handler f hf)

def markDeliveryDelivered (now : ℤ) (id : ℕ) (handler : String) : Tx Unit :=
  updateDelivery id handler (DeliveryRow.markDelivered now) (DeliveryRow.markDelivered_key now)

def markDeliveryTerminalFailure (now : ℤ) (id : ℕ) (handler error : String) : Tx Unit :=
  updateDelivery id handler (DeliveryRow.markTerminalFailure now error)
    (DeliveryRow.markTerminalFailure_key now error)

def recordDeliveryRetry (now : ℤ) (config : DispatcherConfig) (id : ℕ) (handler : String)
    (attempts maxAttempts : ℕ) (error : String) : Tx Unit :=
  let plan := RetryPlan.fromFailure attempts maxAttempts config.backoffMaxSecs error
  updateDelivery id handler (DeliveryRow.recordRetry now plan)
    (DeliveryRow.recordRetry_key now plan)

/-- `UPDATE _pg_events … WHERE id = $1`. -/
def markEventsTerminalFailure (id : ℕ) (error : String) : Tx Unit :=
  Prog.update (fun v => if v.events.has id then [.event id] else [])
    (Outbox.mapEvent id (EventRow.markTerminalFailure error)
      (EventRow.markTerminalFailure_id error))

def refreshMessageState (now : ℤ) (id : ℕ) : Tx Unit :=
  Prog.update (fun v => if v.events.has id then [.event id] else []) (Outbox.refresh now id)

/-- Delivery rows for the subscribers that have none. -/
def ensureDeliveries (now : ℤ) (id : ℕ) (handlers : List String) : Tx Unit :=
  Prog.insertMissing
    (fun v => (handlers.filter fun h => !v.deliveries.has (id, h)).map (Key.delivery id))
    (Outbox.ensure now id handlers)

/-! ## The cycle -/

/-- The text of a caught panic. -/
def panicMessage : Option String → String
  | some s => s!"handler panicked: {s}"
  | none => "handler panicked"

/-- Call one subscriber and write down how it went. -/
def deliverOne (now : ℤ) (config : DispatcherConfig) (payload : String) (id : ℕ)
    (delivery : DeliveryRow) : Tx Unit := do
  let result ← ask (.invoke now id delivery.handler payload)
  match result with
  | .ok => markDeliveryDelivered now id delivery.handler
  | .err message =>
    recordDeliveryRetry now config id delivery.handler delivery.attempts delivery.maxAttempts
      message
  | .panicked message =>
    markDeliveryTerminalFailure now id delivery.handler (panicMessage message)

/-- One due delivery: its subscriber is called, unless nobody is registered under its name. -/
def processDelivery (now : ℤ) (config : DispatcherConfig) (handlers : List String)
    (payload : String) (id : ℕ) (delivery : DeliveryRow) : Tx Unit :=
  if delivery.handler ∈ handlers then deliverOne now config payload id delivery
  else markDeliveryTerminalFailure now id delivery.handler "handler_not_registered"

/-- One event. `fromStr` is the JSON parser: `none`, or the error for a text that is not
JSON. -/
def processMessage (fromStr : String → Option String) (registry : Registry)
    (config : DispatcherConfig) (now : ℤ) (row : MessageRow) : Tx Unit :=
  let id := row.id
  let topic := row.topic
  match fromStr row.payload with
  | some e =>
    .fail s!"_pg_events.payload is not valid JSON (event_id={id}, topic={topic}): {e}"
  | none =>
    match registry.get topic with
    | none => markEventsTerminalFailure id s!"no_handler_for_topic:{topic}"
    | some handlers => do
      ensureDeliveries now id handlers
      let deliveries ← Prog.select (Outbox.dueDeliveries now id)
      Prog.forEach deliveries (processDelivery now config handlers row.payload id)
      refreshMessageState now id

/-- The row of a locked event. -/
def messageRow (v : Outbox) : Key → Option MessageRow
  | .event id => (v.events.get? id).map fun q => ⟨q.id, q.topic, q.payload⟩
  | .delivery _ _ => none

/-- One cycle; the number of events it has processed. -/
def runOneCycle (fromStr : String → Option String) (registry : Registry)
    (config : DispatcherConfig) : Tx ℕ := do
  let now ← ask .now
  let batchSize := max config.batchSize 1
  let rows ← Prog.selectSkipLocked (fun v => (v.dueEvents now).map fun q => Key.event q.id)
    batchSize.toNat fun v ks => ks.filterMap (messageRow v)
  if rows.isEmpty then
    return 0
  let processed := rows.length
  Prog.forEach rows (processMessage fromStr registry config now)
  return processed

/-! ## Publishing -/

/-- The checks of the table's key and column types. -/
def insertRefusal (row : EventRow) (v : Outbox) : Option String :=
  if row.topic.length > 255 then some "value too long for type character varying(255)"
  else if v.events.has row.id then
    some "duplicate key value violates unique constraint \"_pg_events_pkey\""
  else none

def insertEvent (row : EventRow) : Tx Unit :=
  Prog.insert [.event row.id] (insertRefusal row) (Outbox.insertEvent row)

/-- `publish`; `payload` is the event as JSON. -/
def publish (topic payload : String) : Tx Unit := do
  let now ← ask .now
  let id ← ask .nextval
  insertEvent (EventRow.published id topic payload now)

/-- `publish_with_delay`, the delay in microseconds. -/
def publishWithDelay (topic payload : String) (delay : ℕ) : Tx Unit := do
  let now ← ask .now
  let id ← ask .nextval
  insertEvent (EventRow.published id topic payload (now + delay))

/-! ## Requests -/

/-- Transactions on the outbox. Every dispatcher cycle brings the registry of its process. -/
inductive Request where
  | cycle (registry : Registry) (config : DispatcherConfig)
  | publish (topic payload : String)
  | publishWithDelay (topic payload : String) (delay : ℕ)

def Request.run (fromStr : String → Option String) : Request → Tx Unit
  | cycle registry config => do
    let _ ← runOneCycle fromStr registry config
    return ()
  | publish topic payload => EventBus.publish topic payload
  | publishWithDelay topic payload delay => EventBus.publishWithDelay topic payload delay

/-! ## Isolation of deliveries -/

theorem updateDelivery_preserves {id : ℕ} {handler : String} {f : DeliveryRow → DeliveryRow}
    {hf : ∀ d, (f d).key = d.key} {key : ℕ × String} (hkey : key ≠ (id, handler)) :
    (updateDelivery id handler f hf).Preserves fun v => v.deliveries.get? key := by
  refine Prog.preserves_update fun x => ?_
  show (x.deliveries.modify (id, handler) f hf).get? key = x.deliveries.get? key
  exact Table.get?_modify_of_ne hkey

/-- Whatever the subscriber answers, no other delivery is touched. -/
theorem deliverOne_preserves (now : ℤ) (config : DispatcherConfig) (payload : String) (id : ℕ)
    (delivery : DeliveryRow) {key : ℕ × String} (hkey : key ≠ (id, delivery.handler)) :
    (deliverOne now config payload id delivery).Preserves fun v => v.deliveries.get? key := by
  refine Prog.Preserves.bind (Prog.preserves_ask _) fun result => ?_
  cases result with
  | ok => exact updateDelivery_preserves hkey
  | err message => exact updateDelivery_preserves hkey
  | panicked message => exact updateDelivery_preserves hkey

end Slab.EventBus
