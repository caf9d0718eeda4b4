import Slab.Txn.Prog

/-!
# Interleaved transactions

Any number of transactions execute their programs statement by statement, in any order,
under READ COMMITTED: a statement sees what is committed when it executes plus the writes
of its own transaction, row locks are kept until the transaction ends, and the writes
become visible to the others all at once when it commits.

## Main definitions

- `Session` — an open transaction: what is left of its program, its locks, its writes
- `Config` — the committed database, the sessions, and the record of what happened
- `Config.act` — one action of the scheduler, as a function
- `Step` — the same action as a relation, one constructor for each thing it can do
- `Run` — a sequence of actions, each one allowed by a side condition

## Design notes

Uncommitted writes are kept as a function `writes : σ → σ`, applied on top of whatever is
committed. This is the row-version semantics as long as a transaction writes only rows it
has locked or inserted.
-/

namespace Txn

variable {σ κ Q ε α R : Type} {A : Q → Type}

/-- The record of a run: answers of the outside world to committed transactions, and the
commits themselves. -/
inductive Event (R : Type) {Q : Type} (A : Q → Type) where
  | called (q : Q) (a : A q)
  | committed (r : R)

/-- An open transaction: what is left of its program, the row locks it holds, its writes so
far and the answers it has heard. -/
structure Session (σ κ : Type) {Q : Type} (A : Q → Type) (ε α R : Type) where
  request : R
  prog : Prog σ κ A ε α
  held : List κ
  writes : σ → σ
  calls : List (Event R A)

namespace Session

/-- The transaction of request `r` before its first statement. -/
def start (r : R) (p : Prog σ κ A ε α) : Session σ κ A ε α R :=
  { request := r, prog := p, held := [], writes := id, calls := [] }

/-- The session after it heard `a` in answer to `q`. -/
def answered (s : Session σ κ A ε α R) (q : Q) (a : A q) (p : Prog σ κ A ε α) :
    Session σ κ A ε α R :=
  { s with prog := p, calls := s.calls ++ [.called q a] }

/-- The session after a statement that locked `ks` and wrote `w`. -/
def executed (s : Session σ κ A ε α R) (ks : List κ) (w : σ → σ) (p : Prog σ κ A ε α) :
    Session σ κ A ε α R :=
  { s with prog := p, held := s.held ++ ks, writes := w ∘ s.writes }

end Session

/-- The committed database, the sessions by number (`none` once ended), and the record. -/
structure Config (σ κ : Type) {Q : Type} (A : Q → Type) (ε α R : Type) where
  db : σ
  sessions : List (Option (Session σ κ A ε α R))
  trace : List (Event R A)

/-- A scheduler's choice: a new transaction, one step of an open one (with the outside
world's answers for it), or the loss of an open one. -/
inductive Action (R : Type) {Q : Type} (A : Q → Type) where
  | start (r : R)
  | step (i : ℕ) (answer : (q : Q) → A q)
  | abort (i : ℕ)

namespace Config

/-- No transaction has started. -/
def init (db : σ) : Config σ κ A ε α R := { db := db, sessions := [], trace := [] }

/-- The open session `i`. -/
def session? (c : Config σ κ A ε α R) (i : ℕ) : Option (Session σ κ A ε α R) :=
  (c.sessions[i]?).join

def put (c : Config σ κ A ε α R) (i : ℕ) (s : Option (Session σ κ A ε α R)) :
    Config σ κ A ε α R :=
  { c with sessions := c.sessions.set i s }

/-- Session `i` makes its writes visible and ends. -/
def commit (c : Config σ κ A ε α R) (i : ℕ) (s : Session σ κ A ε α R) : Config σ κ A ε α R :=
  { db := s.writes c.db
    sessions := c.sessions.set i none
    trace := c.trace ++ s.calls ++ [.committed s.request] }

/-- Some session other than `i` holds the lock of row `k`. -/
def busy [DecidableEq κ] (c : Config σ κ A ε α R) (i : ℕ) (k : κ) : Bool :=
  (List.range c.sessions.length).any fun j =>
    j != i && match c.session? j with
      | some s => s.held.contains k
      | none => false

/-- One action; `none` when it is not possible (no such session, or it has to wait). -/
def act [DecidableEq κ] (run : R → Prog σ κ A ε α) (c : Config σ κ A ε α R) :
    Action R A → Option (Config σ κ A ε α R)
  | .start r => some { c with sessions := c.sessions ++ [some (.start r (run r))] }
  | .abort i => (c.session? i).map fun _ => c.put i none
  | .step i answer =>
    match c.session? i with
    | none => none
    | some s =>
      match s.prog with
      | .ret _ => some (c.commit i s)
      | .fail _ => some (c.put i none)
      | .call q next => some (c.put i (s.answered q (answer q) (next (answer q))))
      | .stmt lock _ write next =>
        let v := s.writes c.db
        (lock.acquire v (c.busy i)).map fun ks =>
          c.put i (s.executed ks (write v ks) (next v ks))

/-- The actions of a list, in order, each one only where `ok` allows it. -/
def play [DecidableEq κ] (run : R → Prog σ κ A ε α)
    (ok : Config σ κ A ε α R → Action R A → Bool) :
    Config σ κ A ε α R → List (Action R A) → Option (Config σ κ A ε α R)
  | c, [] => some c
  | c, a :: as => if ok c a then (c.act run a).bind fun d => d.play run ok as else none

/-- The rows already there that an action would replace. -/
def overwrites (c : Config σ κ A ε α R) : Action R A → List κ
  | .start _ => []
  | .abort _ => []
  | .step i _ =>
    match c.session? i with
    | none => []
    | some s =>
      match s.prog with
      | .stmt _ olds _ _ => olds (s.writes c.db)
      | _ => []

/-- The step that an action lets session `i` take meets `T`: a condition on the request of the
session, the rows that it owns, those the step replaces, and its view. -/
def Meets (T : R → List κ → List κ → σ → Prop) (c : Config σ κ A ε α R) (a : Action R A) : Prop :=
  ∀ i ans, a = .step i ans → ∀ s, c.session? i = some s →
    T s.request s.held (c.overwrites a) (s.writes c.db)

/-- The test that decides `Meets`. -/
def meets (t : R → List κ → List κ → σ → Bool) (c : Config σ κ A ε α R) (a : Action R A) : Bool :=
  match a with
  | .step i ans =>
    match c.session? i with
    | some s => t s.request s.held (c.overwrites (.step i ans)) (s.writes c.db)
    | none => true
  | _ => true

theorem meets_of_test {t : R → List κ → List κ → σ → Bool} {T : R → List κ → List κ → σ → Prop}
    (ht : ∀ r own olds v, t r own olds v = true → T r own olds v) {c : Config σ κ A ε α R}
    {a : Action R A} (h : c.meets t a = true) : c.Meets T a := by
  rintro i ans rfl s hs
  simp only [meets, hs] at h
  exact ht _ _ _ _ h

/-- Of the rows that `K` picks, the action replaces only those that its own transaction
locked in an earlier statement. -/
def Covered (K : κ → Prop) (c : Config σ κ A ε α R) (a : Action R A) : Prop :=
  ∀ i ans, a = .step i ans → ∀ s, c.session? i = some s → ∀ k ∈ c.overwrites a, K k → k ∈ s.held

/-- The test that decides `Covered`. -/
def covers [DecidableEq κ] (K : κ → Bool) (c : Config σ κ A ε α R) (a : Action R A) : Bool :=
  match a with
  | .step i ans =>
    match c.session? i with
    | some s => (c.overwrites (.step i ans)).all fun k => !K k || s.held.contains k
    | none => true
  | _ => true

theorem covered_of_covers [DecidableEq κ] {K : κ → Bool} {c : Config σ κ A ε α R} {a : Action R A}
    (h : c.covers K a = true) : c.Covered (fun k => K k = true) a := by
  rintro i ans rfl s hs k hk hK
  simp only [covers, hs, List.all_eq_true] at h
  have := h k hk
  simpa [hK] using this

theorem session?_lt {c : Config σ κ A ε α R} {i : ℕ} {s : Session σ κ A ε α R}
    (h : c.session? i = some s) : i < c.sessions.length := by
  by_contra hn
  simp [session?, List.getElem?_eq_none (Nat.le_of_not_lt hn)] at h

theorem session?_put_self {c : Config σ κ A ε α R} {i : ℕ} {s : Session σ κ A ε α R}
    {t : Option (Session σ κ A ε α R)} (h : c.session? i = some s) :
    (c.put i t).session? i = t := by
  simp [session?, put, List.getElem?_set_self (session?_lt h)]

theorem session?_put_of_ne {c : Config σ κ A ε α R} {i j : ℕ}
    {t : Option (Session σ κ A ε α R)} (h : j ≠ i) : (c.put i t).session? j = c.session? j := by
  simp [session?, put, List.getElem?_set_ne (Ne.symm h)]

theorem session?_commit {c : Config σ κ A ε α R} {i : ℕ} {s : Session σ κ A ε α R} (j : ℕ) :
    (c.commit i s).session? j = (c.put i none).session? j := rfl

theorem session?_start {c : Config σ κ A ε α R} {t s : Session σ κ A ε α R} {j : ℕ}
    (h : ({ c with sessions := c.sessions ++ [some t] } : Config σ κ A ε α R).session? j = some s) :
    c.session? j = some s ∨ s = t := by
  simp only [session?, List.getElem?_append] at h
  split at h
  · exact .inl h
  · cases hj : j - c.sessions.length with
    | zero => simp [hj] at h; exact .inr h.symm
    | succ n => simp [hj] at h

theorem not_busy [DecidableEq κ] {c : Config σ κ A ε α R} {i j : ℕ} {k : κ}
    {s : Session σ κ A ε α R} (h : c.busy i k = false) (hs : c.session? j = some s) (hj : j ≠ i) :
    k ∉ s.held := by
  intro hk
  have : c.busy i k = true := by
    refine List.any_eq_true.mpr ⟨j, List.mem_range.mpr (session?_lt hs), ?_⟩
    simp [hj, hs, hk]
  rw [h] at this
  cases this

end Config

/-- What one action can do. -/
inductive Step [DecidableEq κ] (run : R → Prog σ κ A ε α) (c : Config σ κ A ε α R) :
    Action R A → Config σ κ A ε α R → Prop where
  | start (r : R) :
      Step run c (.start r) { c with sessions := c.sessions ++ [some (.start r (run r))] }
  | abort {i : ℕ} {s : Session σ κ A ε α R} (hs : c.session? i = some s) :
      Step run c (.abort i) (c.put i none)
  | commit {i : ℕ} {ans : (q : Q) → A q} {s : Session σ κ A ε α R} {x : α}
      (hs : c.session? i = some s) (hp : s.prog = .ret x) :
      Step run c (.step i ans) (c.commit i s)
  | rollback {i : ℕ} {ans : (q : Q) → A q} {s : Session σ κ A ε α R} {e : ε}
      (hs : c.session? i = some s) (hp : s.prog = .fail e) :
      Step run c (.step i ans) (c.put i none)
  | call {i : ℕ} {ans : (q : Q) → A q} {s : Session σ κ A ε α R} {q : Q}
      {next : A q → Prog σ κ A ε α} (hs : c.session? i = some s) (hp : s.prog = .call q next) :
      Step run c (.step i ans) (c.put i (some (s.answered q (ans q) (next (ans q)))))
  | stmt {i : ℕ} {ans : (q : Q) → A q} {s : Session σ κ A ε α R} {lock : LockMode σ κ}
      {olds : σ → List κ} {write : σ → List κ → σ → σ} {next : σ → List κ → Prog σ κ A ε α}
      {ks : List κ} (hs : c.session? i = some s) (hp : s.prog = .stmt lock olds write next)
      (hl : lock.acquire (s.writes c.db) (c.busy i) = some ks) :
      Step run c (.step i ans) (c.put i (some (s.executed ks
        (write (s.writes c.db) ks) (next (s.writes c.db) ks))))

theorem Step.of_act [DecidableEq κ] {run : R → Prog σ κ A ε α} {c d : Config σ κ A ε α R}
    {a : Action R A} (h : c.act run a = some d) : Step run c a d := by
  cases a with
  | start r => cases h; exact .start r
  | abort i =>
    simp only [Config.act, Option.map_eq_some_iff] at h
    obtain ⟨s, hs, rfl⟩ := h
    exact .abort hs
  | step i answer =>
    simp only [Config.act] at h
    cases hs : c.session? i with
    | none => simp [hs] at h
    | some s =>
      simp only [hs] at h
      cases hp : s.prog with
      | ret x => simp only [hp, Option.some.injEq] at h; subst h; exact .commit hs hp
      | fail e => simp only [hp, Option.some.injEq] at h; subst h; exact .rollback hs hp
      | call q next => simp only [hp, Option.some.injEq] at h; subst h; exact .call hs hp
      | stmt lock olds write next =>
        simp only [hp, Option.map_eq_some_iff] at h
        obtain ⟨ks, hl, rfl⟩ := h
        exact .stmt hs hp hl

/-- A run from `c`: any sequence of actions that meet the side condition `ok`. -/
inductive Run [DecidableEq κ] (run : R → Prog σ κ A ε α)
    (ok : Config σ κ A ε α R → Action R A → Prop) (c : Config σ κ A ε α R) :
    Config σ κ A ε α R → Prop where
  | refl : Run run ok c c
  | tail {d e : Config σ κ A ε α R} {a : Action R A} (hr : Run run ok c d) (hok : ok d a)
      (hs : d.act run a = some e) : Run run ok c e

/-- A played list of actions is a run. -/
theorem Run.of_play [DecidableEq κ] {run : R → Prog σ κ A ε α}
    {ok : Config σ κ A ε α R → Action R A → Bool} {P : Config σ κ A ε α R → Action R A → Prop}
    (hP : ∀ c a, ok c a = true → P c a) {c d e : Config σ κ A ε α R} {as : List (Action R A)}
    (hr : Run run P c d) (h : d.play run ok as = some e) : Run run P c e := by
  induction as generalizing d with
  | nil => cases h; exact hr
  | cons a as ih =>
    rw [Config.play] at h
    split at h
    · next hok =>
      obtain ⟨u, hu, hrest⟩ := Option.bind_eq_some_iff.mp h
      exact ih (hr.tail (hP d a hok) hu) hrest
    · cases h

/-- The event is an answer of the outside world. -/
def Event.IsCall : Event R A → Prop
  | called _ _ => True
  | committed _ => False

/-- Until they commit, sessions have recorded answers only. -/
theorem Step.isCall [DecidableEq κ] {run : R → Prog σ κ A ε α} {c d : Config σ κ A ε α R}
    {a : Action R A} (h : Step run c a d)
    (hc : ∀ i s, c.session? i = some s → ∀ e ∈ s.calls, e.IsCall) :
    ∀ i s, d.session? i = some s → ∀ e ∈ s.calls, e.IsCall := by
  -- an action replaces one session, by none or by one with the same calls and perhaps an answer
  have hput : ∀ i s, c.session? i = some s → ∀ t : Option (Session σ κ A ε α R),
      (∀ u, t = some u → ∀ e ∈ u.calls, e ∈ s.calls ∨ e.IsCall) →
      ∀ j u, (c.put i t).session? j = some u → ∀ e ∈ u.calls, e.IsCall := by
    intro i s hs t ht j u hu e he
    by_cases hj : j = i
    · subst hj
      rw [Config.session?_put_self hs] at hu
      exact (ht u hu e he).elim (hc _ _ hs e) fun h => h
    · rw [Config.session?_put_of_ne hj] at hu
      exact hc _ _ hu e he
  cases h with
  | start r =>
    intro i s hs e he
    rcases Config.session?_start hs with hs' | rfl
    · exact hc i s hs' e he
    · cases he
  | abort hs => exact hput _ _ hs _ fun _ hu => by cases hu
  | commit hs hp =>
    intro j u hu
    rw [Config.session?_commit] at hu
    exact hput _ _ hs _ (fun _ hu => by cases hu) j u hu
  | rollback hs hp => exact hput _ _ hs _ fun _ hu => by cases hu
  | call hs hp =>
    refine hput _ _ hs _ fun u hu e he => ?_
    obtain rfl := Option.some.inj hu
    rcases List.mem_append.mp he with he | he
    · exact .inl he
    · rw [List.mem_singleton.mp he]
      exact .inr trivial
  | stmt hs hp hl =>
    refine hput _ _ hs _ fun u hu e he => ?_
    obtain rfl := Option.some.inj hu
    exact .inl he

theorem Run.isCall [DecidableEq κ] {run : R → Prog σ κ A ε α}
    {ok : Config σ κ A ε α R → Action R A → Prop} {db : σ} {c : Config σ κ A ε α R}
    (hr : Run run ok (Config.init db) c) :
    ∀ i s, c.session? i = some s → ∀ e ∈ s.calls, e.IsCall := by
  induction hr with
  | refl =>
    intro i s hs
    simp [Config.session?, Config.init] at hs
  | tail _ _ hs ih => exact (Step.of_act hs).isCall ih

/-- The action lets a session of request `r` commit. -/
def Config.Commits (c : Config σ κ A ε α R) (a : Action R A) (r : R) : Prop :=
  ∃ i ans s x, a = .step i ans ∧ c.session? i = some s ∧ s.prog = .ret x ∧ s.request = r

/-- Only a commit changes the committed database. -/
theorem Step.db_eq [DecidableEq κ] {run : R → Prog σ κ A ε α} {c d : Config σ κ A ε α R}
    {a : Action R A} (h : Step run c a d) :
    d.db = c.db ∨ ∃ i ans s x, a = .step i ans ∧ c.session? i = some s ∧ s.prog = .ret x ∧
      d = c.commit i s := by
  cases h with
  | commit hs hp => exact .inr ⟨_, _, _, _, rfl, hs, hp, rfl⟩
  | _ => exact .inl rfl

end Txn
