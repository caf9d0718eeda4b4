import Mathlib

/-!
# Transaction programs

A transaction is written once, as a tree of statements against a database of type `σ`
whose rows are locked by keys of type `κ`. `Prog.Runs` executes it alone, from first
statement to last; `Slab.Txn.Interleave` executes the same tree one statement at a time
among other transactions.

## Main definitions

- `LockMode` — how a statement locks rows: wait for all of them, or skip the locked ones
- `Prog` — transaction programs, with answers from outside the database (`call`)
- `Prog.Runs` — a solo execution, every outside answer allowed
- `Prog.exec` — the same execution as a function of the outside answers
-/

namespace Txn

/-- Row locking of one statement. `wait` blocks until every named row is free
(`FOR UPDATE`, and the row locks of `UPDATE` and `INSERT`); `skip` takes the first
`limit` rows that are free (`FOR UPDATE SKIP LOCKED LIMIT`). -/
inductive LockMode (σ κ : Type) where
  | wait (keys : σ → List κ)
  | skip (keys : σ → List κ) (limit : ℕ)

namespace LockMode

variable {σ κ : Type}

/-- The rows the statement locks at view `v` when `busy` rows belong to others;
`none` while it has to wait. -/
def acquire : LockMode σ κ → σ → (κ → Bool) → Option (List κ)
  | wait keys, v, busy => if (keys v).any busy then none else some (keys v)
  | skip keys limit, v, busy => some (((keys v).filter fun k => !busy k).take limit)

/-- The rows locked when no other transaction is open. -/
def alone : LockMode σ κ → σ → List κ
  | wait keys, v => keys v
  | skip keys limit, v => (keys v).take limit

theorem acquire_not_busy {m : LockMode σ κ} {v : σ} {busy : κ → Bool} {ks : List κ}
    (h : m.acquire v busy = some ks) : ∀ k ∈ ks, busy k = false := by
  intro k hk
  cases m with
  | wait keys =>
    simp only [acquire] at h
    split at h
    · cases h
    · next hfree =>
      cases h
      cases hb : busy k with
      | false => rfl
      | true => exact absurd (List.any_eq_true.mpr ⟨k, hk, hb⟩) hfree
  | skip keys limit =>
    simp only [acquire, Option.some.injEq] at h
    subst h
    have hm := List.mem_filter.mp (List.mem_of_mem_take hk)
    simpa using hm.2

theorem acquire_wait {keys : σ → List κ} {v : σ} {busy : κ → Bool} {ks : List κ}
    (h : (wait keys).acquire v busy = some ks) : ks = keys v := by
  simp only [acquire] at h
  split at h
  · cases h
  · exact (Option.some.inj h).symm

end LockMode

/-- A transaction program over databases `σ` with row keys `κ`. A statement sees the
database `v` (what is committed plus the transaction's own writes), locks rows, writes, and
goes on with what it read. `olds` are the rows already there that its write replaces. -/
inductive Prog (σ κ : Type) {Q : Type} (A : Q → Type) (ε α : Type) : Type where
  | ret (a : α)
  | fail (e : ε)
  | call (q : Q) (next : A q → Prog σ κ A ε α)
  | stmt (lock : LockMode σ κ) (olds : σ → List κ) (write : σ → List κ → σ → σ)
      (next : σ → List κ → Prog σ κ A ε α)

namespace Prog

variable {σ κ Q ε α β γ : Type} {A : Q → Type}

/-- Sequencing: run the first program, and the second on its result. -/
def bind (p : Prog σ κ A ε α) (f : α → Prog σ κ A ε β) : Prog σ κ A ε β :=
  match p with
  | ret a => f a
  | fail e => fail e
  | call q next => call q fun a => (next a).bind f
  | stmt lock olds write next => stmt lock olds write fun v ks => (next v ks).bind f

instance : Monad (Prog σ κ A ε) where
  pure := ret
  bind := bind

@[simp] theorem pure_eq (a : α) : (pure a : Prog σ κ A ε α) = ret a := rfl

@[simp] theorem ret_bind (a : α) (f : α → Prog σ κ A ε β) : (ret a >>= f) = f a := rfl

@[simp] theorem fail_bind (e : ε) (f : α → Prog σ κ A ε β) :
    ((fail e : Prog σ κ A ε α) >>= f) = fail e := rfl

@[simp] theorem call_bind (q : Q) (next : A q → Prog σ κ A ε α) (f : α → Prog σ κ A ε β) :
    (call q next >>= f) = call q fun a => next a >>= f := rfl

@[simp] theorem stmt_bind (lock : LockMode σ κ) (olds : σ → List κ) (write : σ → List κ → σ → σ)
    (next : σ → List κ → Prog σ κ A ε α) (f : α → Prog σ κ A ε β) :
    (stmt lock olds write next >>= f) = stmt lock olds write fun v ks => next v ks >>= f := rfl

theorem bind_ret (p : Prog σ κ A ε α) : (p >>= ret) = p := by
  induction p with
  | ret a => rfl
  | fail e => rfl
  | call q next ih =>
    rw [call_bind]
    exact congrArg (call q) (funext ih)
  | stmt lock olds write next ih =>
    rw [stmt_bind]
    exact congrArg (stmt lock olds write) (funext fun v => funext fun ks => ih v ks)

/-- Ask the outside world: a fresh identifier, a clock, a handler's verdict. -/
def ask (q : Q) : Prog σ κ A ε (A q) := call q ret

/-- `SELECT` without locks. -/
def select (f : σ → β) : Prog σ κ A ε β :=
  stmt (.wait fun _ => []) (fun _ => []) (fun _ _ => id) fun v _ => ret (f v)

/-- `SELECT … FOR UPDATE`: lock the rows `keys` finds and return `f` of the view. -/
def selectForUpdate (keys : σ → List κ) (f : σ → β) : Prog σ κ A ε β :=
  stmt (.wait keys) (fun _ => []) (fun _ _ => id) fun v _ => ret (f v)

/-- `SELECT … FOR UPDATE SKIP LOCKED LIMIT`: lock the first `limit` rows of `keys` that nobody
else holds and return `f` of the view and of them. -/
def selectSkipLocked (keys : σ → List κ) (limit : ℕ) (f : σ → List κ → β) : Prog σ κ A ε β :=
  stmt (.skip keys limit) (fun _ => []) (fun _ _ => id) fun v ks => ret (f v ks)

/-- Stop with `e` unless the test passes. -/
def ensure (c : Bool) (e : ε) : Prog σ κ A ε Unit := if c then ret () else fail e

/-- Stop with the error of a refusal, if there is one. -/
def refuse : Option ε → Prog σ κ A ε Unit
  | none => ret ()
  | some e => fail e

/-- A statement that writes unless the database refuses it with an error. -/
def writeIf (keys olds : σ → List κ) (refusal : σ → Option ε) (w : σ → σ) :
    Prog σ κ A ε Unit :=
  stmt (.wait keys) olds (fun v _ x => if (refusal v).isNone then w x else x) fun v _ =>
    refuse (refusal v)

/-- The same for a statement that tells something of the rows it found: `RETURNING`, or how many
they were. -/
def writeReturning (keys olds : σ → List κ) (refusal : σ → Option ε) (w : σ → σ) (f : σ → β) :
    Prog σ κ A ε β :=
  stmt (.wait keys) olds (fun v _ x => if (refusal v).isNone then w x else x) fun v _ =>
    (refuse (refusal v)).bind fun _ => ret (f v)

/-- `INSERT` of a row with the primary keys `keys`: it waits for another transaction that is
about to insert them. The refusal is a violated constraint. -/
def insert (keys : List κ) (refusal : σ → Option ε) (w : σ → σ) : Prog σ κ A ε Unit :=
  writeIf (fun _ => keys) (fun _ => []) refusal w

/-- `UPDATE` of the rows `keys`, which stay locked until the end. -/
def update (keys : σ → List κ) (w : σ → σ) : Prog σ κ A ε Unit :=
  stmt (.wait keys) keys (fun _ _ => w) fun _ _ => ret ()

/-- `INSERT … ON CONFLICT (key) DO UPDATE`: waits for the row whether it is there or on its
way, and replaces it if it is there. -/
def upsert (key : κ) (present : σ → Bool) (w : σ → σ) : Prog σ κ A ε Unit :=
  stmt (.wait fun _ => [key]) (fun v => if present v then [key] else []) (fun _ _ => w)
    fun _ _ => ret ()

/-- `INSERT … ON CONFLICT DO NOTHING` of the rows `keys`: `w` adds those that are missing. -/
def insertMissing (keys : σ → List κ) (w : σ → σ) : Prog σ κ A ε Unit :=
  stmt (.wait keys) (fun _ => []) (fun _ _ => w) fun _ _ => ret ()

/-- The value of an optional read, or stop with `e` (`.ok_or(e)?`). -/
def orFail (x : Option α) (e : ε) : Prog σ κ A ε α :=
  match x with
  | some a => ret a
  | none => fail e

/-- The value of a fallible computation, or its error (`?`). -/
def ofExcept (x : Except ε α) : Prog σ κ A ε α :=
  match x with
  | .ok a => ret a
  | .error e => fail e

/-- `for x in xs`: one round of `body` for each element, in order. -/
def forEach {ι : Type} : List ι → (ι → Prog σ κ A ε Unit) → Prog σ κ A ε Unit
  | [], _ => ret ()
  | x :: xs, body => body x >>= fun _ => forEach xs body

/-! ## Solo execution -/

/-- `p` alone takes the database from `v` to `w` and ends with `r`. Every answer of the
outside world is allowed; writes made before a failure are still in `w`. -/
def Runs : Prog σ κ A ε α → σ → σ → Except ε α → Prop
  | ret a, v, w, r => w = v ∧ r = .ok a
  | fail e, v, w, r => w = v ∧ r = .error e
  | call q next, v, w, r => ∃ a : A q, (next a).Runs v w r
  | stmt lock _ write next, v, w, r =>
      (next v (lock.alone v)).Runs (write v (lock.alone v) v) w r

/-- The solo execution when the outside world answers the `n`-th question by `world n`. -/
def exec (world : ℕ → (q : Q) → A q) : Prog σ κ A ε α → ℕ → σ → σ × Except ε α
  | ret a, _, v => (v, .ok a)
  | fail e, _, v => (v, .error e)
  | call q next, n, v => (next (world n q)).exec world (n + 1) v
  | stmt lock _ write next, n, v =>
      (next v (lock.alone v)).exec world n (write v (lock.alone v) v)

/-- The function is one of the executions the relation allows. -/
theorem exec_runs (world : ℕ → (q : Q) → A q) (p : Prog σ κ A ε α) (n : ℕ) (v : σ) :
    p.Runs v (p.exec world n v).1 (p.exec world n v).2 := by
  induction p generalizing n v with
  | ret a => exact ⟨rfl, rfl⟩
  | fail e => exact ⟨rfl, rfl⟩
  | call q next ih => exact ⟨world n q, ih _ (n + 1) v⟩
  | stmt lock olds write next ih => exact ih _ _ n _

@[simp] theorem runs_ret {a : α} {v w : σ} {r : Except ε α} :
    (ret a : Prog σ κ A ε α).Runs v w r ↔ w = v ∧ r = .ok a := Iff.rfl

@[simp] theorem runs_fail {e : ε} {v w : σ} {r : Except ε α} :
    (fail e : Prog σ κ A ε α).Runs v w r ↔ w = v ∧ r = .error e := Iff.rfl

theorem runs_call {q : Q} {next : A q → Prog σ κ A ε α} {v w : σ} {r : Except ε α} :
    (call q next).Runs v w r ↔ ∃ a : A q, (next a).Runs v w r := Iff.rfl

theorem runs_stmt {lock : LockMode σ κ} {olds : σ → List κ} {write : σ → List κ → σ → σ}
    {next : σ → List κ → Prog σ κ A ε α} {v w : σ} {r : Except ε α} :
    (stmt lock olds write next).Runs v w r ↔
      (next v (lock.alone v)).Runs (write v (lock.alone v) v) w r := Iff.rfl

/-- A sequence succeeds iff both parts do, the second from where the first stopped. -/
theorem runs_bind_ok {p : Prog σ κ A ε α} {f : α → Prog σ κ A ε β} {v w : σ} {b : β} :
    (p >>= f).Runs v w (.ok b) ↔ ∃ u a, p.Runs v u (.ok a) ∧ (f a).Runs u w (.ok b) := by
  induction p generalizing v with
  | ret a => simp
  | fail e => simp
  | call q next ih =>
    simp only [call_bind, runs_call, ih]
    constructor
    · rintro ⟨x, u, a, h₁, h₂⟩; exact ⟨u, a, ⟨x, h₁⟩, h₂⟩
    · rintro ⟨u, a, ⟨x, h₁⟩, h₂⟩; exact ⟨x, u, a, h₁, h₂⟩
  | stmt lock olds write next ih => simp only [stmt_bind, runs_stmt, ih]

/-- A program that goes on by leaving out its result has run all the same. -/
theorem runs_discard {p : Prog σ κ A ε α} {v w : σ}
    (h : (p >>= fun _ => (pure () : Prog σ κ A ε Unit)).Runs v w (.ok ())) :
    ∃ a, p.Runs v w (.ok a) := by
  obtain ⟨u, a, hp, rfl, -⟩ := runs_bind_ok.mp h
  exact ⟨a, hp⟩

/-- A sequence fails where one of its parts does. -/
theorem runs_bind_error {p : Prog σ κ A ε α} {f : α → Prog σ κ A ε β} {v w : σ} {e : ε} :
    (p >>= f).Runs v w (.error e) ↔
      p.Runs v w (.error e) ∨ ∃ u a, p.Runs v u (.ok a) ∧ (f a).Runs u w (.error e) := by
  induction p generalizing v with
  | ret a => simp
  | fail e => simp
  | call q next ih =>
    simp only [call_bind, runs_call, ih]
    constructor
    · rintro ⟨x, h | ⟨u, a, h₁, h₂⟩⟩
      · exact .inl ⟨x, h⟩
      · exact .inr ⟨u, a, ⟨x, h₁⟩, h₂⟩
    · rintro (⟨x, h⟩ | ⟨u, a, ⟨x, h₁⟩, h₂⟩)
      · exact ⟨x, .inl h⟩
      · exact ⟨x, .inr ⟨u, a, h₁, h₂⟩⟩
  | stmt lock olds write next ih => simp only [stmt_bind, runs_stmt, ih]

/-- A sequence runs its first part, and the second unless the first has failed. -/
theorem runs_bind {p : Prog σ κ A ε α} {f : α → Prog σ κ A ε β} {v w : σ} {r : Except ε β} :
    (p >>= f).Runs v w r ↔ (∃ u a, p.Runs v u (.ok a) ∧ (f a).Runs u w r) ∨
      ∃ e, r = .error e ∧ p.Runs v w (.error e) := by
  cases r with
  | ok b => simp [runs_bind_ok]
  | error e => simp [runs_bind_error, or_comm]

@[simp] theorem runs_ask {q : Q} {v w : σ} {r : Except ε (A q)} :
    (ask q : Prog σ κ A ε (A q)).Runs v w r ↔ w = v ∧ ∃ a, r = .ok a := by
  simp [ask, runs_call]

@[simp] theorem runs_select {f : σ → β} {v w : σ} {r : Except ε β} :
    (select f : Prog σ κ A ε β).Runs v w r ↔ w = v ∧ r = .ok (f v) := Iff.rfl

@[simp] theorem runs_selectForUpdate {keys : σ → List κ} {f : σ → β} {v w : σ} {r : Except ε β} :
    (selectForUpdate keys f : Prog σ κ A ε β).Runs v w r ↔ w = v ∧ r = .ok (f v) := Iff.rfl

@[simp] theorem runs_writeIf_ok {keys olds : σ → List κ} {refusal : σ → Option ε} {g : σ → σ}
    {v w : σ} {u : Unit} : (writeIf keys olds refusal g : Prog σ κ A ε Unit).Runs v w (.ok u) ↔
      refusal v = none ∧ w = g v := by
  cases u
  cases h : refusal v <;> simp [writeIf, refuse, runs_stmt, h]

@[simp] theorem runs_writeIf_error {keys olds : σ → List κ} {refusal : σ → Option ε} {e : ε}
    {g : σ → σ} {v w : σ} : (writeIf keys olds refusal g : Prog σ κ A ε Unit).Runs v w (.error e) ↔
      refusal v = some e ∧ w = v := by
  cases h : refusal v with
  | none => simp [writeIf, refuse, runs_stmt, h]
  | some e' =>
    simp only [writeIf, refuse, runs_stmt, runs_fail, h, Option.isNone_some, Bool.false_eq_true, if_false,
      Except.error.injEq, Option.some.injEq]
    exact ⟨fun ⟨hw, he⟩ => ⟨he.symm, hw⟩, fun ⟨he, hw⟩ => ⟨hw, he.symm⟩⟩

@[simp] theorem runs_writeReturning_ok {keys olds : σ → List κ} {refusal : σ → Option ε}
    {g : σ → σ} {f : σ → β} {v w : σ} {b : β} :
    (writeReturning keys olds refusal g f : Prog σ κ A ε β).Runs v w (.ok b) ↔
      refusal v = none ∧ w = g v ∧ b = f v := by
  cases h : refusal v <;> simp [writeReturning, refuse, Prog.bind, runs_stmt, h]

@[simp] theorem runs_insert_ok {keys : List κ} {refusal : σ → Option ε} {g : σ → σ} {v w : σ}
    {u : Unit} :
    (insert keys refusal g : Prog σ κ A ε Unit).Runs v w (.ok u) ↔ refusal v = none ∧ w = g v :=
  runs_writeIf_ok

@[simp] theorem runs_insert_error {keys : List κ} {refusal : σ → Option ε} {e : ε} {g : σ → σ}
    {v w : σ} : (insert keys refusal g : Prog σ κ A ε Unit).Runs v w (.error e) ↔
      refusal v = some e ∧ w = v :=
  runs_writeIf_error

@[simp] theorem runs_update {keys : σ → List κ} {g : σ → σ} {v w : σ} {r : Except ε Unit} :
    (update keys g : Prog σ κ A ε Unit).Runs v w r ↔ w = g v ∧ r = .ok () := Iff.rfl

@[simp] theorem runs_upsert {key : κ} {present : σ → Bool} {g : σ → σ} {v w : σ}
    {r : Except ε Unit} :
    (upsert key present g : Prog σ κ A ε Unit).Runs v w r ↔ w = g v ∧ r = .ok () := Iff.rfl

@[simp] theorem runs_ensure {c : Bool} {e : ε} {v w : σ} {r : Except ε Unit} :
    (ensure c e : Prog σ κ A ε Unit).Runs v w r ↔
      w = v ∧ r = if c then .ok () else .error e := by
  cases c <;> simp [ensure]

theorem runs_ensure_ok {c : Bool} {e : ε} {v w : σ} {u : Unit} :
    (ensure c e : Prog σ κ A ε Unit).Runs v w (.ok u) ↔ w = v ∧ c = true := by
  cases c <;> simp [ensure]

@[simp] theorem runs_orFail_ok {x : Option α} {e : ε} {v w : σ} {a : α} :
    (orFail x e : Prog σ κ A ε α).Runs v w (.ok a) ↔ w = v ∧ x = some a := by
  cases x <;> simp [orFail, eq_comm]

@[simp] theorem runs_orFail_error {x : Option α} {e e' : ε} {v w : σ} :
    (orFail x e : Prog σ κ A ε α).Runs v w (.error e') ↔ w = v ∧ x = none ∧ e' = e := by
  cases x <;> simp [orFail]

@[simp] theorem runs_ofExcept {x : Except ε α} {v w : σ} {r : Except ε α} :
    (ofExcept x : Prog σ κ A ε α).Runs v w r ↔ w = v ∧ r = x := by
  cases x <;> simp [ofExcept]

/-- A loop of one round more succeeds iff its first round and the rest do. -/
theorem runs_forEach_cons_ok {ι : Type} {x : ι} {xs : List ι} {body : ι → Prog σ κ A ε Unit}
    {v w : σ} : (forEach (x :: xs) body).Runs v w (.ok ()) ↔
      ∃ u, (body x).Runs v u (.ok ()) ∧ (forEach xs body).Runs u w (.ok ()) := by
  rw [forEach, runs_bind_ok]
  exact ⟨fun ⟨u, _, h⟩ => ⟨u, h⟩, fun ⟨u, h⟩ => ⟨u, (), h⟩⟩

/-- Induction over a loop: what one round keeps holds after all of them. -/
theorem runs_forEach_ok {ι : Type} {xs : List ι} {body : ι → Prog σ κ A ε Unit} {P : σ → Prop}
    {v w : σ} (hstep : ∀ x ∈ xs, ∀ v w, P v → (body x).Runs v w (.ok ()) → P w)
    (hv : P v) (h : (forEach xs body).Runs v w (.ok ())) : P w := by
  induction xs generalizing v with
  | nil =>
    simp only [forEach, runs_ret] at h
    exact h.1 ▸ hv
  | cons x xs ih =>
    obtain ⟨u, h₁, h₂⟩ := runs_forEach_cons_ok.mp h
    exact ih (fun y hy => hstep y (List.mem_cons_of_mem x hy))
      (hstep x List.mem_cons_self v u hv h₁) h₂

/-! ## What a program leaves alone -/

/-- No statement of the program changes `f` of the database. -/
def Preserves {τ : Type} (f : σ → τ) : Prog σ κ A ε α → Prop
  | ret _ => True
  | fail _ => True
  | call _ next => ∀ a, Preserves f (next a)
  | stmt _ _ write next => ∀ v ks, (∀ x, f (write v ks x) = f x) ∧ Preserves f (next v ks)

section Preserves

variable {τ τ' : Type} {f : σ → τ}

theorem Preserves.bind {p : Prog σ κ A ε α} {g : α → Prog σ κ A ε β} (hp : p.Preserves f)
    (hg : ∀ a, (g a).Preserves f) : (p >>= g).Preserves f := by
  induction p with
  | ret a => exact hg a
  | fail e => exact trivial
  | call q next ih => exact fun a => ih a (hp a)
  | stmt lock olds write next ih => exact fun v ks => ⟨(hp v ks).1, ih v ks (hp v ks).2⟩

/-- What is left alone includes everything it determines. -/
theorem Preserves.mono {p : Prog σ κ A ε α} (hp : p.Preserves f) {g : σ → τ'}
    (hfg : ∀ x y, f x = f y → g x = g y) : p.Preserves g := by
  induction p with
  | ret a => exact trivial
  | fail e => exact trivial
  | call q next ih => exact fun a => ih a (hp a)
  | stmt lock olds write next ih =>
    exact fun v ks => ⟨fun x => hfg _ _ ((hp v ks).1 x), ih v ks (hp v ks).2⟩

/-- What is left alone by forgetting something includes all that does not depend on it. -/
theorem Preserves.factor {p : Prog σ κ A ε α} {forget : σ → σ} (hp : p.Preserves forget)
    {g : σ → τ'} (hg : ∀ x, g (forget x) = g x) : p.Preserves g := by
  refine hp.mono fun x y h => ?_
  rw [← hg x, h, hg y]

theorem Preserves.runs {p : Prog σ κ A ε α} (hp : p.Preserves f) {v w : σ} {r : Except ε α}
    (h : p.Runs v w r) : f w = f v := by
  induction p generalizing v with
  | ret a => exact congrArg f h.1
  | fail e => exact congrArg f h.1
  | call q next ih =>
    obtain ⟨a, ha⟩ := h
    exact ih a (hp a) ha
  | stmt lock olds write next ih => exact (ih _ _ (hp _ _).2 h).trans ((hp _ _).1 v)

theorem preserves_ret (a : α) : (ret a : Prog σ κ A ε α).Preserves f := trivial

theorem preserves_ask (q : Q) : (ask q : Prog σ κ A ε (A q)).Preserves f := fun _ => trivial

theorem preserves_select (g : σ → β) : (select g : Prog σ κ A ε β).Preserves f :=
  fun _ _ => ⟨fun _ => rfl, trivial⟩

theorem preserves_selectForUpdate (keys : σ → List κ) (g : σ → β) :
    (selectForUpdate keys g : Prog σ κ A ε β).Preserves f :=
  fun _ _ => ⟨fun _ => rfl, trivial⟩

theorem preserves_selectSkipLocked (keys : σ → List κ) (limit : ℕ) (g : σ → List κ → β) :
    (selectSkipLocked keys limit g : Prog σ κ A ε β).Preserves f :=
  fun _ _ => ⟨fun _ => rfl, trivial⟩

theorem preserves_ensure (c : Bool) (e : ε) : (ensure c e : Prog σ κ A ε Unit).Preserves f := by
  cases c <;> exact trivial

theorem preserves_orFail (x : Option α) (e : ε) : (orFail x e : Prog σ κ A ε α).Preserves f := by
  cases x <;> exact trivial

theorem preserves_ofExcept (x : Except ε α) : (ofExcept x : Prog σ κ A ε α).Preserves f := by
  cases x <;> exact trivial

theorem preserves_writeIf {keys olds : σ → List κ} {refusal : σ → Option ε} {w : σ → σ}
    (h : ∀ x, f (w x) = f x) : (writeIf keys olds refusal w : Prog σ κ A ε Unit).Preserves f := by
  intro v ks
  change (∀ x, f (if (refusal v).isNone = true then w x else x) = f x) ∧
    (refuse (refusal v) : Prog σ κ A ε Unit).Preserves f
  cases refusal v with
  | none => exact ⟨h, trivial⟩
  | some e => exact ⟨fun _ => rfl, trivial⟩

theorem preserves_writeReturning {keys olds : σ → List κ} {refusal : σ → Option ε} {w : σ → σ}
    {g : σ → β} (h : ∀ x, f (w x) = f x) :
    (writeReturning keys olds refusal w g : Prog σ κ A ε β).Preserves f := by
  intro v ks
  change (∀ x, f (if (refusal v).isNone = true then w x else x) = f x) ∧
    ((refuse (refusal v) : Prog σ κ A ε Unit).bind fun _ => ret (g v)).Preserves f
  cases refusal v with
  | none => exact ⟨h, trivial⟩
  | some e => exact ⟨fun _ => rfl, trivial⟩

theorem preserves_insert {keys : List κ} {refusal : σ → Option ε} {w : σ → σ}
    (h : ∀ x, f (w x) = f x) : (insert keys refusal w : Prog σ κ A ε Unit).Preserves f :=
  preserves_writeIf h

theorem preserves_update {keys : σ → List κ} {w : σ → σ} (h : ∀ x, f (w x) = f x) :
    (update keys w : Prog σ κ A ε Unit).Preserves f := fun _ _ => ⟨h, trivial⟩

theorem preserves_upsert {key : κ} {present : σ → Bool} {w : σ → σ} (h : ∀ x, f (w x) = f x) :
    (upsert key present w : Prog σ κ A ε Unit).Preserves f := fun _ _ => ⟨h, trivial⟩

theorem preserves_forEach {ι : Type} {xs : List ι} {body : ι → Prog σ κ A ε Unit}
    (h : ∀ x ∈ xs, (body x).Preserves f) : (forEach xs body).Preserves f := by
  induction xs with
  | nil => exact trivial
  | cons x xs ih =>
    exact (h x List.mem_cons_self).bind fun _ => ih fun y hy => h y (List.mem_cons_of_mem x hy)

end Preserves

/-! ## Transactions -/

/-- One whole transaction, alone: its writes are kept on success and rolled back on
failure. -/
def Transacts (p : Prog σ κ A ε α) (v w : σ) (r : Except ε α) : Prop :=
  ∃ u, p.Runs v u r ∧ w = match r with
    | .ok _ => u
    | .error _ => v

/-- The transaction of `exec`. -/
def transact (world : ℕ → (q : Q) → A q) (p : Prog σ κ A ε α) (v : σ) : σ × Except ε α :=
  match p.exec world 0 v with
  | (w, .ok a) => (w, .ok a)
  | (_, .error e) => (v, .error e)

theorem transacts_ok {p : Prog σ κ A ε α} {v w : σ} {a : α} :
    p.Transacts v w (.ok a) ↔ p.Runs v w (.ok a) := by
  constructor
  · rintro ⟨u, h, rfl⟩; exact h
  · intro h; exact ⟨w, h, rfl⟩

theorem Transacts.of_error {p : Prog σ κ A ε α} {v w : σ} {e : ε}
    (h : p.Transacts v w (.error e)) : w = v := by
  obtain ⟨_, _, rfl⟩ := h; rfl

theorem transact_transacts (world : ℕ → (q : Q) → A q) (p : Prog σ κ A ε α) (v : σ) :
    p.Transacts v (p.transact world v).1 (p.transact world v).2 := by
  have h := exec_runs world p 0 v
  unfold transact
  cases hx : p.exec world 0 v with
  | mk w r =>
    rw [hx] at h
    cases r with
    | ok a => exact ⟨w, h, rfl⟩
    | error e => exact ⟨w, h, rfl⟩

/-- A transaction that is seen to end well. -/
theorem transacts_of_toOption {world : ℕ → (q : Q) → A q} {p : Prog σ κ A ε α} {v : σ} {a : α}
    (h : (p.transact world v).2.toOption = some a) :
    p.Transacts v (p.transact world v).1 (.ok a) := by
  have hrun := transact_transacts world p v
  cases hr : (p.transact world v).2 with
  | ok b =>
    rw [hr] at h hrun
    exact Option.some.inj h ▸ hrun
  | error e =>
    rw [hr] at h
    cases h

end Prog

/-! ## Requests in order -/

/-- A request that was served alone: the database it found and left, and its result. -/
structure Service (σ ε α R : Type) where
  request : R
  found : σ
  left : σ
  result : Except ε α

section InOrder

variable {σ κ Q ε α R : Type} {A : Q → Type}

/-- Requests served one after another, each on what the one before it left. -/
def InOrder (run : R → Prog σ κ A ε α) (v : σ) : List (Service σ ε α R) → σ → Prop
  | [], w => w = v
  | x :: xs, w => x.found = v ∧ (run x.request).Transacts x.found x.left x.result ∧
    InOrder run x.left xs w

/-- The services of a list of requests, with the answers of `world` to each. -/
def serveInOrder (run : R → Prog σ κ A ε α) (world : ℕ → (q : Q) → A q) :
    σ → List R → List (Service σ ε α R) × σ
  | v, [] => ([], v)
  | v, r :: rs =>
    let (w, result) := (run r).transact world v
    let (xs, u) := serveInOrder run (fun n => world (n + 100)) w rs
    (⟨r, v, w, result⟩ :: xs, u)

theorem inOrder_serveInOrder (run : R → Prog σ κ A ε α) (world : ℕ → (q : Q) → A q) (v : σ)
    (rs : List R) :
    InOrder run v (serveInOrder run world v rs).1 (serveInOrder run world v rs).2 := by
  induction rs generalizing world v with
  | nil => rfl
  | cons r rs ih => exact ⟨rfl, Prog.transact_transacts world _ v, ih _ _⟩

/-- One more request is served at the end. -/
theorem InOrder.snoc {run : R → Prog σ κ A ε α} {v w u : σ} {xs : List (Service σ ε α R)}
    (h : InOrder run v xs w) {r : R} {result : Except ε α}
    (hr : (run r).Transacts w u result) : InOrder run v (xs ++ [⟨r, w, u, result⟩]) u := by
  induction xs generalizing v with
  | nil =>
    obtain rfl : w = v := h
    exact ⟨rfl, hr, rfl⟩
  | cons x xs ih => exact ⟨h.1, h.2.1, ih h.2.2⟩

end InOrder

end Txn
