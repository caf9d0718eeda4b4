import Slab.Txn.Machine

/-!
# Requests that share a store

A request calls a store, one operation after another, and goes on with what it is told. Any number
of requests are in progress at a time, and their calls alternate in any order; a single call is
atomic. The surroundings may change the store as well.

## Main definitions

- `Script` — what a request calls, depending on the answers
- `Script.run` — a request on its own
- `Script.Calls` — the calls of a request are of a kind
- `Shared` — the store, the requests in progress, and the record of what happened
- `Shared.act` — one choice of who goes on
- `Shared.Step` — the same as a relation
-/

namespace Txn

/-- A request between two calls. -/
inductive Script (Op Reply α : Type) where
  | ret (result : α)
  | call (op : Op) (next : Reply → Script Op Reply α)

/-- A request on its own; `none` where a call fails. -/
def Script.run {σ Op Reply α : Type} (exec : σ → Op → Option (σ × Reply)) :
    Script Op Reply α → σ → Option (σ × α)
  | .ret result, s => some (s, result)
  | .call op next, s => (exec s op).bind fun answer => (next answer.2).run exec answer.1

section Run

variable {σ Op Reply α : Type} {exec : σ → Op → Option (σ × Reply)}

/-- What every call keeps, of the store and of what is left to do, holds at the end. -/
theorem Script.run_invariant {P : σ → Script Op Reply α → Prop}
    (hstep : ∀ s op next s' reply, P s (.call op next) → exec s op = some (s', reply) →
      P s' (next reply))
    {script : Script Op Reply α} {s s' : σ} {result : α} (h : P s script)
    (hrun : script.run exec s = some (s', result)) : P s' (.ret result) := by
  induction script generalizing s with
  | ret result =>
    cases hrun
    exact h
  | call op next ih =>
    obtain ⟨⟨t, reply⟩, hexec, hrest⟩ := Option.bind_eq_some_iff.mp hrun
    exact ih reply (hstep s op next t reply h hexec) hrest

/-- Every call of a request, whatever the answers are, is of a kind. -/
def Script.Calls (Q : Op → Prop) : Script Op Reply α → Prop
  | .ret _ => True
  | .call op next => Q op ∧ ∀ reply, (next reply).Calls Q

/-- What calls of a kind keep, a request with calls of that kind keeps. -/
theorem Script.Calls.run {Q : Op → Prop} {P : σ → Prop} {script : Script Op Reply α}
    (hcalls : script.Calls Q)
    (hkeeps : ∀ s op s' reply, Q op → exec s op = some (s', reply) → P s → P s') {s s' : σ}
    {result : α} (h : P s) (hrun : script.run exec s = some (s', result)) : P s' := by
  refine (Script.run_invariant (P := fun s script => script.Calls Q ∧ P s) ?_ ⟨hcalls, h⟩ hrun).2
  rintro s op next s' reply ⟨⟨hop, hnext⟩, h⟩ hexec
  exact ⟨hnext reply, hkeeps s op s' reply hop hexec h⟩

end Run

/-- A request in progress: what is left of it, and its calls so far with their answers. -/
structure Client (Req Op Reply α : Type) where
  request : Req
  script : Script Op Reply α
  calls : List (Op × Reply)

inductive Happening (Req Op Reply α : Type) where
  | started (request : Req)
  | called (request : Req) (op : Op) (reply : Reply)
  | ended (request : Req) (result : α)

/-- The store, the requests in progress by number (`none` once ended), and the record. -/
structure Shared (σ Req Op Reply α : Type) where
  store : σ
  clients : List (Option (Client Req Op Reply α))
  trace : List (Happening Req Op Reply α)

/-- Who goes on: a new request, one in progress, or the surroundings. -/
inductive Choice (Req E : Type) where
  | start (request : Req)
  | advance (i : ℕ)
  | env (e : E)

namespace Shared

variable {σ Req Op Reply α E : Type} {exec : σ → Op → Option (σ × Reply)} {env : E → σ → σ}
  {program : Req → Script Op Reply α}

def init (store : σ) : Shared σ Req Op Reply α := ⟨store, [], []⟩

/-- The request number `i`, if it is in progress. -/
def client? (c : Shared σ Req Op Reply α) (i : ℕ) : Option (Client Req Op Reply α) :=
  (c.clients[i]?).join

/-- The request number `i` has told what happened, and is now as given. -/
def put (c : Shared σ Req Op Reply α) (i : ℕ) (client : Option (Client Req Op Reply α)) (store : σ)
    (event : Happening Req Op Reply α) : Shared σ Req Op Reply α where
  store := store
  clients := c.clients.set i client
  trace := c.trace ++ [event]

/-- One choice; `none` when it is not possible: no such request, or a call that fails. -/
def act (exec : σ → Op → Option (σ × Reply)) (env : E → σ → σ) (program : Req → Script Op Reply α) :
    Machine (Shared σ Req Op Reply α) (Choice Req E)
  | c, .start request => some
      { c with
        clients := c.clients ++ [some ⟨request, program request, []⟩]
        trace := c.trace ++ [.started request] }
  | c, .env e => some { c with store := env e c.store }
  | c, .advance i =>
    match c.client? i with
    | none => none
    | some client =>
      match client.script with
      | .ret result => some (c.put i none c.store (.ended client.request result))
      | .call op next => (exec c.store op).map fun answer =>
          c.put i
            (some ⟨client.request, next answer.2, client.calls ++ [(op, answer.2)]⟩)
            answer.1 (.called client.request op answer.2)

/-- What one choice can do. -/
inductive Step (exec : σ → Op → Option (σ × Reply)) (env : E → σ → σ)
    (program : Req → Script Op Reply α) (c : Shared σ Req Op Reply α) :
    Choice Req E → Shared σ Req Op Reply α → Prop where
  | start (request : Req) : Step exec env program c (.start request)
      { c with
        clients := c.clients ++ [some ⟨request, program request, []⟩]
        trace := c.trace ++ [.started request] }
  | env (e : E) : Step exec env program c (.env e) { c with store := env e c.store }
  | ended {i : ℕ} {client : Client Req Op Reply α} {result : α} (hclient : c.client? i = some client)
      (hscript : client.script = .ret result) :
      Step exec env program c (.advance i)
        (c.put i none c.store (.ended client.request result))
  | called {i : ℕ} {client : Client Req Op Reply α} {op : Op}
      {next : Reply → Script Op Reply α} {store : σ} {reply : Reply}
      (hclient : c.client? i = some client) (hscript : client.script = .call op next)
      (hexec : exec c.store op = some (store, reply)) :
      Step exec env program c (.advance i)
        (c.put i (some ⟨client.request, next reply, client.calls ++ [(op, reply)]⟩) store
          (.called client.request op reply))

theorem Step.of_act {c d : Shared σ Req Op Reply α} {choice : Choice Req E}
    (h : act exec env program c choice = some d) : Step exec env program c choice d := by
  cases choice with
  | start request =>
    cases h
    exact .start request
  | env e =>
    cases h
    exact .env e
  | advance i =>
    simp only [act] at h
    cases hclient : c.client? i with
    | none => simp [hclient] at h
    | some client =>
      simp only [hclient] at h
      cases hscript : client.script with
      | ret result =>
        simp only [hscript, Option.some.injEq] at h
        exact h ▸ .ended hclient hscript
      | call op next =>
        simp only [hscript, Option.map_eq_some_iff] at h
        obtain ⟨⟨store, reply⟩, hexec, rfl⟩ := h
        exact .called hclient hscript hexec

section Clients

variable {c : Shared σ Req Op Reply α} {i j : ℕ} {client client' : Client Req Op Reply α}

theorem client?_lt (h : c.client? i = some client) : i < c.clients.length := by
  by_contra hlt
  simp [client?, List.getElem?_eq_none (Nat.le_of_not_lt hlt)] at h

/-- The requests after one of them has gone on. -/
theorem client?_put {next : Option (Client Req Op Reply α)} {store : σ}
    {event : Happening Req Op Reply α} (hi : c.client? i = some client)
    (h : (c.put i next store event).client? j = some client') :
    (j = i ∧ next = some client') ∨ (j ≠ i ∧ c.client? j = some client') := by
  by_cases hj : j = i
  · subst hj
    left
    rw [client?, put, List.getElem?_set_self (client?_lt hi)] at h
    exact ⟨rfl, h⟩
  · right
    rw [client?, put, List.getElem?_set_ne (Ne.symm hj)] at h
    exact ⟨hj, h⟩

/-- The requests after one has been started. -/
theorem client?_start {new : Client Req Op Reply α} {trace : List (Happening Req Op Reply α)}
    (h : ({ c with clients := c.clients ++ [some new], trace } :
      Shared σ Req Op Reply α).client? j = some client) :
    c.client? j = some client ∨ (j = c.clients.length ∧ client = new) := by
  simp only [client?, List.getElem?_append] at h
  split at h
  · exact .inl h
  · rename_i hge
    cases hj : j - c.clients.length with
    | zero =>
      simp only [hj, List.getElem?_cons_zero, Option.join_some, Option.some.injEq] at h
      exact .inr ⟨by omega, h.symm⟩
    | succ n => simp [hj] at h

end Clients

end Shared

end Txn
