import Slab.Txn.Interleave
import Slab.Txn.Machine

/-!
# Requests that commit as they go

Beside the requests that work in one transaction there are those that open none: each of their
statements commits on its own. `Live` runs both kinds together, statement by statement, and
remembers what the statements of each request have seen.

## Main definitions

- `Config.publish` — the statement of a request without a transaction commits
- `Live` — a configuration, and for each session the views of its statements
- `Live.act` — one action of the scheduler; its runs are those of `Machine.Run`
- `Live.Step` — the same action as a relation
- `Live.Meets` — a condition on the statement that an action executes
-/

namespace Txn

variable {σ κ Q ε α R : Type} {A : Q → Type}

namespace Session

/-- The session after its statement has committed: nothing is locked, nothing is pending. -/
def settled (s : Session σ κ A ε α R) : Session σ κ A ε α R := { s with held := [], writes := id }

end Session

namespace Config

/-- What session `i` has written is committed, and the session goes on. -/
def publish (c : Config σ κ A ε α R) (i : ℕ) (s : Session σ κ A ε α R) : Config σ κ A ε α R :=
  { c with db := s.writes c.db, sessions := c.sessions.set i (some s.settled) }

/-- What the statement of session `i` sees, if a statement is what comes next. -/
def view? (c : Config σ κ A ε α R) (i : ℕ) : Option σ :=
  (c.session? i).bind fun s =>
    match s.prog with
    | .stmt _ _ _ _ => some (s.writes c.db)
    | _ => none

/-- The rows that an action locks. -/
def locks [DecidableEq κ] (c : Config σ κ A ε α R) : Action R A → List κ
  | .start _ => []
  | .abort _ => []
  | .step i _ =>
    match c.session? i with
    | none => []
    | some s =>
      match s.prog with
      | .stmt lock _ _ _ => (lock.acquire (s.writes c.db) (c.busy i)).getD []
      | _ => []

/-- The action ends session `i` before it is done. -/
def drops (c : Config σ κ A ε α R) (i : ℕ) : Action R A → Bool
  | .start _ => false
  | .abort j => j = i
  | .step j _ => j = i ∧ (c.session? i).any fun s =>
    match s.prog with
    | .fail _ => true
    | _ => false

theorem session?_publish (c : Config σ κ A ε α R) (i j : ℕ) (s : Session σ κ A ε α R) :
    (c.publish i s).session? j = (c.put i (some s.settled)).session? j := rfl

theorem session?_start_self (c : Config σ κ A ε α R) (t : Session σ κ A ε α R) :
    ({ c with sessions := c.sessions ++ [some t] } : Config σ κ A ε α R).session?
      c.sessions.length = some t := by
  simp [session?]

theorem session?_start_of_ne (c : Config σ κ A ε α R) (t : Session σ κ A ε α R) {j : ℕ}
    (h : j ≠ c.sessions.length) :
    ({ c with sessions := c.sessions ++ [some t] } : Config σ κ A ε α R).session? j =
      c.session? j := by
  rcases Nat.lt_or_gt_of_ne h with hlt | hgt
  · simp [session?, List.getElem?_append_left hlt]
  · have hnone : (c.sessions ++ [some t])[j]? = none := List.getElem?_eq_none (by simp; omega)
    simp [session?, hnone, List.getElem?_eq_none (Nat.le_of_lt hgt)]

theorem view?_stmt {c : Config σ κ A ε α R} {i : ℕ} {s : Session σ κ A ε α R}
    {lock : LockMode σ κ} {olds : σ → List κ} {write : σ → List κ → σ → σ}
    {next : σ → List κ → Prog σ κ A ε α} (hs : c.session? i = some s)
    (hp : s.prog = .stmt lock olds write next) : c.view? i = some (s.writes c.db) := by
  rw [view?, hs, Option.bind_some, hp]

theorem locks_stmt [DecidableEq κ] {c : Config σ κ A ε α R} {i : ℕ} {ans : (q : Q) → A q}
    {s : Session σ κ A ε α R} {lock : LockMode σ κ} {olds : σ → List κ}
    {write : σ → List κ → σ → σ} {next : σ → List κ → Prog σ κ A ε α} {ks : List κ}
    (hs : c.session? i = some s) (hp : s.prog = .stmt lock olds write next)
    (hl : lock.acquire (s.writes c.db) (c.busy i) = some ks) : c.locks (.step i ans) = ks := by
  simp only [locks, hs, hp, hl, Option.getD_some]

end Config

/-- What is committed and who is at work, and for each session what its statements have seen. -/
structure Live (σ κ : Type) {Q : Type} (A : Q → Type) (ε α R : Type) where
  config : Config σ κ A ε α R
  views : ℕ → List σ

namespace Live

def init (db : σ) : Live σ κ A ε α R := { config := .init db, views := fun _ => [] }

/-- Where session `i` works without a transaction, its statement commits. -/
def settle (auto : R → Bool) (c : Config σ κ A ε α R) (i : ℕ) : Config σ κ A ε α R :=
  match c.session? i with
  | some s => if auto s.request then c.publish i s else c
  | none => c

/-- What the sessions have seen once the action is done. -/
def seen (l : Live σ κ A ε α R) : Action R A → ℕ → List σ
  | .start _ => Function.update l.views l.config.sessions.length []
  | .abort _ => l.views
  | .step i _ =>
    match l.config.view? i with
    | some v => Function.update l.views i (l.views i ++ [v])
    | none => l.views

/-- One action, where the requests of `auto` work without a transaction. -/
def act [DecidableEq κ] (run : R → Prog σ κ A ε α) (auto : R → Bool) :
    Machine (Live σ κ A ε α R) (Action R A) := fun l a =>
  (l.config.act run a).map fun d =>
    { config :=
        match a with
        | .step i _ => if (l.config.view? i).isSome then settle auto d i else d
        | _ => d
      views := l.seen a }

/-- What one action can do. -/
inductive Step [DecidableEq κ] (run : R → Prog σ κ A ε α) (auto : R → Bool)
    (l : Live σ κ A ε α R) : Action R A → Live σ κ A ε α R → Prop where
  | start (r : R) :
      Step run auto l (.start r)
        { config := { l.config with sessions := l.config.sessions ++ [some (.start r (run r))] }
          views := Function.update l.views l.config.sessions.length [] }
  | drop {a : Action R A} {i : ℕ} {s : Session σ κ A ε α R} (hs : l.config.session? i = some s)
      (ha : l.config.drops i a = true) :
      Step run auto l a { config := l.config.put i none, views := l.views }
  | commit {i : ℕ} {ans : (q : Q) → A q} {s : Session σ κ A ε α R} {x : α}
      (hs : l.config.session? i = some s) (hp : s.prog = .ret x) :
      Step run auto l (.step i ans) { config := l.config.commit i s, views := l.views }
  | call {i : ℕ} {ans : (q : Q) → A q} {s : Session σ κ A ε α R} {q : Q}
      {next : A q → Prog σ κ A ε α} (hs : l.config.session? i = some s)
      (hp : s.prog = .call q next) :
      Step run auto l (.step i ans)
        { config := l.config.put i (some (s.answered q (ans q) (next (ans q))))
          views := l.views }
  | stmt {i : ℕ} {ans : (q : Q) → A q} {s : Session σ κ A ε α R} {lock : LockMode σ κ}
      {olds : σ → List κ} {write : σ → List κ → σ → σ} {next : σ → List κ → Prog σ κ A ε α}
      {ks : List κ} (hs : l.config.session? i = some s)
      (hp : s.prog = .stmt lock olds write next)
      (hl : lock.acquire (s.writes l.config.db) (l.config.busy i) = some ks)
      (hauto : auto s.request = false) :
      Step run auto l (.step i ans)
        { config := l.config.put i (some (s.executed ks (write (s.writes l.config.db) ks)
            (next (s.writes l.config.db) ks)))
          views := Function.update l.views i (l.views i ++ [s.writes l.config.db]) }
  | exec {i : ℕ} {ans : (q : Q) → A q} {s : Session σ κ A ε α R} {lock : LockMode σ κ}
      {olds : σ → List κ} {write : σ → List κ → σ → σ} {next : σ → List κ → Prog σ κ A ε α}
      {ks : List κ} (hs : l.config.session? i = some s)
      (hp : s.prog = .stmt lock olds write next)
      (hl : lock.acquire (s.writes l.config.db) (l.config.busy i) = some ks)
      (hauto : auto s.request = true) :
      Step run auto l (.step i ans)
        { config := l.config.publish i (s.executed ks (write (s.writes l.config.db) ks)
            (next (s.writes l.config.db) ks))
          views := Function.update l.views i (l.views i ++ [s.writes l.config.db]) }

theorem settle_put {auto : R → Bool} {c : Config σ κ A ε α R} {i : ℕ}
    {s t : Session σ κ A ε α R} (hs : c.session? i = some s) :
    settle auto (c.put i (some t)) i =
      if auto t.request then c.publish i t else c.put i (some t) := by
  have hpub : (c.put i (some t)).publish i t = c.publish i t := by
    simp [Config.publish, Config.put]
  simp only [settle, Config.session?_put_self hs, hpub]

theorem Step.of_act [DecidableEq κ] {run : R → Prog σ κ A ε α} {auto : R → Bool}
    {l m : Live σ κ A ε α R} {a : Action R A} (h : act run auto l a = some m) :
    Step run auto l a m := by
  obtain ⟨d, hd, rfl⟩ := Option.map_eq_some_iff.mp h
  have hquiet : ∀ {i : ℕ} {s : Session σ κ A ε α R}, l.config.session? i = some s →
      (∀ lock olds write next, s.prog ≠ .stmt lock olds write next) →
      l.config.view? i = none := by
    intro i s hs hp
    rw [Config.view?, hs, Option.bind_some]
    cases hprog : s.prog with
    | stmt lock olds write next => exact absurd hprog (hp _ _ _ _)
    | _ => rfl
  cases Txn.Step.of_act hd with
  | start r => exact .start r
  | abort hs => exact .drop hs (by simp [Config.drops])
  | @commit i ans s x hs hp =>
    have hview := hquiet hs (by simp [hp])
    simp only [seen, hview, Option.isSome_none, Bool.false_eq_true, if_false]
    exact .commit hs hp
  | @rollback i ans s e hs hp =>
    have hview := hquiet hs (by simp [hp])
    simp only [seen, hview, Option.isSome_none, Bool.false_eq_true, if_false]
    exact .drop hs (by simp [Config.drops, hs, hp])
  | @call i ans s q next hs hp =>
    have hview := hquiet hs (by simp [hp])
    simp only [seen, hview, Option.isSome_none, Bool.false_eq_true, if_false]
    exact .call hs hp
  | @stmt i ans s lock olds write next ks hs hp hl =>
    have hview := Config.view?_stmt hs hp
    simp only [seen, hview, Option.isSome_some, if_true, settle_put hs, Session.executed]
    cases hauto : auto s.request with
    | false =>
      simp only [Bool.false_eq_true, if_false]
      exact .stmt hs hp hl hauto
    | true =>
      simp only [if_true]
      exact .exec hs hp hl hauto

section Effect

variable [DecidableEq κ] {run : R → Prog σ κ A ε α} {auto : R → Bool} {l m : Live σ κ A ε α R}
  {i : ℕ} {ans : (q : Q) → A q} {s : Session σ κ A ε α R}
  (hs : l.config.session? i = some s)

include hs

/-- A session that has returned commits what it has written. -/
theorem Step.db_of_ret {x : α} (hp : s.prog = .ret x) (h : Step run auto l (.step i ans) m) :
    m.config.db = s.writes l.config.db := by
  cases h with
  | drop _ ha =>
    obtain ⟨rfl, hfails⟩ := of_decide_eq_true ha
    rw [hs, Option.any_some, hp] at hfails
    cases hfails
  | commit hs' hp' =>
    obtain rfl := Option.some.inj (hs.symm.trans hs')
    rfl
  | call hs' hp' =>
    obtain rfl := Option.some.inj (hs.symm.trans hs')
    cases hp.symm.trans hp'
  | stmt hs' hp' | exec hs' hp' =>
    obtain rfl := Option.some.inj (hs.symm.trans hs')
    cases hp.symm.trans hp'

/-- A transaction that has not returned changes nothing that is committed. -/
theorem Step.db_of_open {a : Action R A} (hauto : auto s.request = false)
    (hp : ∀ x, s.prog ≠ .ret x) (ha : a = .abort i ∨ ∃ ans, a = .step i ans)
    (h : Step run auto l a m) : m.config.db = l.config.db := by
  cases h with
  | commit hs' hp' =>
    obtain ⟨ans, ha⟩ := ha.resolve_left (by simp)
    obtain rfl := (Action.step.inj ha).1
    obtain rfl := Option.some.inj (hs.symm.trans hs')
    exact absurd hp' (hp _)
  | exec hs' hp' hl hauto' =>
    obtain ⟨ans, ha⟩ := ha.resolve_left (by simp)
    obtain rfl := (Action.step.inj ha).1
    obtain rfl := Option.some.inj (hs.symm.trans hs')
    cases hauto.symm.trans hauto'
  | _ => rfl

end Effect

/-- The statement that an action lets a session execute meets `T`: a condition on the request,
what its earlier statements have seen, and what this one sees. -/
def Meets (T : R → List σ → σ → Prop) (l : Live σ κ A ε α R) (a : Action R A) : Prop :=
  ∀ i ans, a = .step i ans → ∀ s, l.config.session? i = some s → ∀ v, l.config.view? i = some v →
    T s.request (l.views i) v

/-- The test that decides `Meets`. -/
def meets (t : R → List σ → σ → Bool) (l : Live σ κ A ε α R) (a : Action R A) : Bool :=
  match a with
  | .step i _ =>
    match l.config.session? i, l.config.view? i with
    | some s, some v => t s.request (l.views i) v
    | _, _ => true
  | _ => true

theorem meets_of_test {t : R → List σ → σ → Bool} {T : R → List σ → σ → Prop}
    (ht : ∀ r vs v, t r vs v = true → T r vs v) {l : Live σ κ A ε α R} {a : Action R A}
    (h : l.meets t a = true) : l.Meets T a := by
  rintro i ans rfl s hs v hv
  simp only [meets, hs, hv] at h
  exact ht _ _ _ h

end Live

end Txn
